/-
One object, read twice.

The two readers ask the same of an entry of the directory, but for what
fits a word: an object the reader of words accepts is accepted by the other
(`parseObject_container`), and one that the reader of numbers accepts and
that ends below `2 ^ 63` is accepted by the first (`container_parseObject`).
-/
import Ginfer.Artifact.Proofs.Layouts

namespace Ginfer.Artifact

open Ginfer.Lib Container List
open Ginfer.Frontend (Bytes ascii)

-- ============ the names

variable {name : Bytes} {format : NumericFormat}

theorem parseFormat_iff :
    parseFormat name = .ok format ↔ name = formatName format := by
  constructor
  · intro h
    unfold parseFormat at h
    repeat' split at h
    all_goals cases h
    all_goals assumption
  · rintro rfl
    cases format <;> rfl

variable {layout : StorageLayout}

theorem parseLayout_iff :
    parseLayout name = .ok layout ↔ name = layoutName layout := by
  constructor
  · intro h
    unfold parseLayout at h
    repeat' split at h
    all_goals cases h
    all_goals assumption
  · rintro rfl
    cases layout <;> rfl

theorem parseEncoding_iff {encoding : ResourceEncoding} :
    parseEncoding name = .ok encoding ↔ name = encodingName encoding := by
  constructor
  · intro h
    unfold parseEncoding at h
    split at h
    · cases h
      assumption
    · cases h
  · rintro rfl
    cases encoding
    rfl

theorem getFormat_name {strRepr : Bytes → Bytes} {spec : Container.NumericFormat}
    (h : Container.getFormat strRepr name = .ok spec) :
    ∃ format, name = formatName format := by
  by_contra hnone
  push Not at hnone
  have hlookup : numericFormats.lookup name = none := by
    rw [lookup_eq_none_iff]
    intro p hp
    simp only [numericFormats, mem_cons, not_mem_nil, or_false] at hp
    rw [bne_iff_ne]
    rcases hp with rfl | rfl | rfl | rfl | rfl | rfl | rfl | rfl | rfl
    · exact hnone .bf16
    · exact hnone .fp32
    · exact hnone .i32
    · exact hnone .q4g64F16s
    · exact hnone .q5g64F16s
    · exact hnone .q6g64F16s
    · exact hnone .w8g32F16s
    · exact hnone .nvfp4
    · exact hnone .fp8E4m3fnRowBf16s
  unfold getFormat at h
  rw [hlookup] at h
  cases h

theorem getLayout_name {strRepr : Bytes → Bytes} {spec : Layout}
    (h : getLayout strRepr name = .ok spec) :
    ∃ layout, name = layoutName layout := by
  by_contra hnone
  push Not at hnone
  have hlookup : layouts.lookup name = none := by
    rw [lookup_eq_none_iff]
    intro p hp
    simp only [layouts, mem_cons, not_mem_nil, or_false] at hp
    rw [bne_iff_ne]
    rcases hp with rfl | rfl | rfl | rfl
    · exact hnone .contiguousLeV1
    · exact hnone .rowSplitK128V1
    · exact hnone .blockScaleK16M128x4V1
    · exact hnone .rowScaleV1
  unfold getLayout at h
  rw [hlookup] at h
  cases h

-- ============ the members

theorem find?_isSome {entries : List (Bytes × Json)} {key : Bytes} :
    ((Json.object entries).find? key).isSome = true
      ↔ key ∈ entries.map Prod.fst := by
  unfold Json.find?
  rw [Option.isSome_map, List.find?_isSome, mem_map]
  constructor
  · rintro ⟨e, he, hkey⟩
    exact ⟨e, he, by simpa using hkey⟩
  · rintro ⟨e, he, rfl⟩
    exact ⟨e, he, by simp⟩

theorem canonical_nodup {entries : List (Bytes × Json)}
    (h : (Json.object entries).Canonical) :
    (entries.map Prod.fst).Nodup := by
  cases h with
  | object _ hsorted _ =>
    rw [nodup_iff_pairwise_ne, pairwise_map]
    refine List.Pairwise.imp ?_ hsorted
    intro a b hlt heq
    rw [heq] at hlt
    exact List.lt_irrefl _ hlt

variable {value : Json}

/-- The keys of a map are those wanted when there are as many and each is
there. -/
theorem requireMembers_iff (hvalue : value.Canonical)
    {members : List String} (hmembers : (members.map ascii).Nodup)
    (label : String) :
    requireMembers value members label = .ok ()
      ↔ hasMembers value members = true := by
  cases value with
  | object entries =>
    have hkeys := canonical_nodup hvalue
    have hall : (members.all fun m =>
        ((Json.object entries).find? (ascii m)).isSome) = true
        ↔ members.map ascii ⊆ entries.map Prod.fst := by
      rw [all_eq_true]
      constructor
      · intro h key hkey
        obtain ⟨m, hm, rfl⟩ := mem_map.mp hkey
        exact find?_isSome.mp (h m hm)
      · intro h m hm
        exact find?_isSome.mpr (h (mem_map_of_mem hm))
    have hhas : hasMembers (.object entries) members = true
        ↔ entries.map Prod.fst ⊆ members.map ascii
          ∧ members.map ascii ⊆ entries.map Prod.fst := by
      unfold hasMembers
      rw [Bool.and_eq_true, all_eq_true, all_eq_true]
      constructor
      · rintro ⟨h₁, h₂⟩
        constructor
        · intro key hkey
          obtain ⟨e, he, rfl⟩ := mem_map.mp hkey
          obtain ⟨m, hm, hname⟩ := any_eq_true.mp (h₁ e he)
          exact mem_map.mpr ⟨m, hm, by simpa using hname⟩
        · intro key hkey
          obtain ⟨m, hm, rfl⟩ := mem_map.mp hkey
          obtain ⟨e, he, hname⟩ := any_eq_true.mp (h₂ m hm)
          exact mem_map.mpr ⟨e, he, by simpa using hname⟩
      · rintro ⟨h₁, h₂⟩
        constructor
        · intro e he
          obtain ⟨m, hm, hname⟩ :=
            mem_map.mp (h₁ (mem_map_of_mem he))
          exact any_eq_true.mpr ⟨m, hm, by simpa using hname⟩
        · intro m hm
          obtain ⟨e, he, hname⟩ :=
            mem_map.mp (h₂ (mem_map_of_mem hm))
          exact any_eq_true.mpr ⟨e, he, by simpa using hname⟩
    rw [hhas]
    unfold requireMembers
    dsimp only
    constructor
    · intro h
      split at h
      · cases h
      next hnot =>
      rw [not_or, not_not, not_not] at hnot
      obtain ⟨hlen, hin⟩ := hnot
      have hsub := hall.mp hin
      refine ⟨?_, hsub⟩
      have hperm := (subperm_of_subset hmembers
        hsub).perm_of_length_le (by simp [hlen])
      exact hperm.symm.subset
    · rintro ⟨h₁, h₂⟩
      have hperm : (entries.map Prod.fst).Perm (members.map ascii) := by
        rw [perm_ext_iff_of_nodup hkeys hmembers]
        exact fun key => ⟨fun hk => h₁ hk, fun hk => h₂ hk⟩
      have hlen := hperm.length_eq
      rw [length_map, length_map] at hlen
      rw [if_neg]
      rw [not_or, not_not, not_not]
      exact ⟨hlen, hall.mpr h₂⟩
  | _ =>
    unfold requireMembers hasMembers
    constructor
    · intro h
      cases h
    · intro h
      cases h

-- ============ the numbers

theorem requireInteger_of_unsigned {label : String}
    (field : String) {positive : Bool} {w : UInt64}
    (h : requireUnsigned value label positive = .ok w) :
    requireInteger value field positive = .ok w.toNat
      ∧ (positive = true → w ≠ 0) := by
  unfold requireUnsigned at h
  split at h
  · next n =>
    split at h
    · cases h
    next hrange =>
    split at h
    · cases h
    next hpositive =>
    cases h
    have hnat : (UInt64.ofNat n.toNat).toNat = n.toNat :=
      UInt64.toNat_ofNat_of_lt' (by
        show n.toNat < 2 ^ 64
        omega)
    constructor
    · unfold requireInteger
      dsimp only
      rw [hnat, if_neg]
      cases positive with
      | false =>
        simp only [Bool.false_eq_true, if_false]
        omega
      | true =>
        simp only [if_true]
        simp only [true_and] at hpositive
        omega
    · intro hpos hzero
      have hn : n.toNat = 0 := by
        rw [← hnat, hzero]
        rfl
      exact hpositive ⟨hpos, by omega⟩
  · cases h

variable {n : Nat}

theorem requireUnsigned_of_integer {field : String}
    (label : String) {positive : Bool}
    (h : requireInteger value field positive = .ok n) (hlt : n < 2 ^ 64) :
    requireUnsigned value label positive = .ok (UInt64.ofNat n) := by
  cases value with
  | integer i =>
    unfold requireInteger at h
    unfold requireUnsigned
    dsimp only at h ⊢
    cases positive with
    | false =>
      rw [if_neg Bool.false_ne_true] at h
      split at h
      · cases h
      · cases h
        rw [if_neg (by omega), if_neg (by simp)]
    | true =>
      rw [if_pos rfl] at h
      split at h
      · cases h
      · cases h
        rw [if_neg (by omega), if_neg (by omega)]
  | _ => cases h

theorem requireInteger_pos {field : String}
    (h : requireInteger value field true = .ok n) : 0 < n := by
  unfold requireInteger at h
  split at h
  · rw [if_pos rfl] at h
    split at h
    · cases h
    · cases h
      omega
  · cases h

theorem requireDims_of_shape : ∀ (dims : List Json) (shape : List UInt64),
    parseShape dims = .ok shape →
    requireDims dims = .ok (shape.map UInt64.toNat)
      ∧ ∀ d ∈ shape, d ≠ 0 := by
  intro dims
  induction dims with
  | nil =>
    intro shape h
    cases h
    exact ⟨rfl, nofun⟩
  | cons dim rest ih =>
    intro shape h
    unfold parseShape at h
    obtain ⟨first, hfirst, h⟩ := bind_ok.mp h
    obtain ⟨others, hothers, h⟩ := bind_ok.mp h
    cases h
    obtain ⟨hinteger, hpos⟩ :=
      requireInteger_of_unsigned "shape dimension" hfirst
    obtain ⟨hdims, hrest⟩ := ih others hothers
    constructor
    · unfold requireDims
      rw [hinteger, ok_bind, hdims]
      rfl
    · intro d hd
      rcases mem_cons.mp hd with rfl | hin
      · exact hpos rfl
      · exact hrest d hin

theorem parseShape_of_dims : ∀ (dims : List Json) (numbers : List Nat),
    requireDims dims = .ok numbers →
    (∀ n ∈ numbers, n < 2 ^ 64) →
    parseShape dims = .ok (numbers.map UInt64.ofNat) := by
  intro dims
  induction dims with
  | nil =>
    intro numbers h _
    cases h
    rfl
  | cons dim rest ih =>
    intro numbers h hlt
    unfold requireDims at h
    obtain ⟨first, hfirst, h⟩ := bind_ok.mp h
    obtain ⟨others, hothers, h⟩ := bind_ok.mp h
    cases h
    unfold parseShape
    rw [requireUnsigned_of_integer "shape dimension" hfirst
        (hlt first (.head _)), ok_bind,
      ih others hothers (fun n hn => hlt n (.tail _ hn))]
    rfl

theorem requireDims_pos : ∀ (dims : List Json) (numbers : List Nat),
    requireDims dims = .ok numbers → ∀ n ∈ numbers, 0 < n := by
  intro dims
  induction dims with
  | nil =>
    intro numbers h
    cases h
    exact nofun
  | cons dim rest ih =>
    intro numbers h
    unfold requireDims at h
    obtain ⟨first, hfirst, h⟩ := bind_ok.mp h
    obtain ⟨others, hothers, h⟩ := bind_ok.mp h
    cases h
    intro n hn
    rcases mem_cons.mp hn with rfl | hin
    · exact requireInteger_pos hfirst
    · exact ih others hothers n hin

-- ============ the dimensions

theorem le_prod : ∀ (numbers : List Nat), (∀ n ∈ numbers, 0 < n) →
    ∀ n ∈ numbers, n ≤ numbers.prod := by
  intro numbers
  induction numbers with
  | nil => exact fun _ n hn => absurd hn not_mem_nil
  | cons m rest ih =>
    intro hpos n hn
    have hrest : ∀ k ∈ rest, 0 < k :=
      fun k hk => hpos k (.tail _ hk)
    have hm : 0 < m := hpos m (.head _)
    have hprod : 0 < rest.prod :=
      List.prod_pos_iff_forall_pos_nat.mpr hrest
    rw [prod_cons]
    rcases mem_cons.mp hn with rfl | hin
    · exact Nat.le_mul_of_pos_right _ hprod
    · exact le_trans (ih hrest n hin) (Nat.le_mul_of_pos_left _ hm)

theorem shapeOfRankTwo_ok {numbers : List Nat} {k : Nat}
    (h : shapeOfRankTwo numbers = .ok (n, k)) :
    numbers = [n, k] ∧ 0 < n ∧ 0 < k := by
  unfold shapeOfRankTwo at h
  split at h
  · cases h
  next hpos =>
  split at h
  · cases h
    simp only [any_cons, any_nil, Bool.or_false, Bool.or_eq_true,
      decide_eq_true_eq, not_or] at hpos
    exact ⟨rfl, by omega, by omega⟩
  · cases h

/-- A tensor that fits a file has dimensions that fit a word. -/
theorem exactSize_dims
    {numbers : List Nat} {v : Nat} (hpos : ∀ n ∈ numbers, 0 < n)
    (haccepts : accepts layout format = true)
    (h : exactSize layout format numbers = .ok v) (hv : v < 2 ^ 63) :
    ∀ n ∈ numbers, n < 2 ^ 64 := by
  have hpair : ∀ {n k : Nat}, numbers = [n, k] → n < 2 ^ 64 →
      k < 2 ^ 64 → ∀ m ∈ numbers, m < 2 ^ 64 := by
    rintro n k rfl hn hk m hm
    rcases mem_cons.mp hm with rfl | hin
    · exact hn
    · rw [mem_singleton.mp hin]
      exact hk
  unfold exactSize at h
  cases layout with
  | contiguousLeV1 =>
    dsimp only at h
    unfold contiguousSize at h
    split at h
    · next word hspec =>
      split at h
      · cases h
      split at h
      · cases h
      cases h
      have hword : 0 < word := by
        cases format <;> cases hspec <;> decide
      intro n hn
      have hle := le_prod numbers hpos n hn
      have hmul := Nat.le_mul_of_pos_right numbers.prod hword
      omega
    · cases h
  | rowSplitK128V1 =>
    obtain ⟨g, hg, h⟩ := bind_ok.mp h
    cases h
    unfold Container.rowSplitGeometry at hg
    split at hg
    swap
    · cases hg
    next bits groupSize hspec =>
    obtain ⟨⟨n, k⟩, hshape, hg⟩ := bind_ok.mp hg
    cases hg
    obtain ⟨hnumbers, hn, hk⟩ := shapeOfRankTwo_ok hshape
    have hgroup : (groupSize = 64 ∨ groupSize = 32)
        ∧ (if bits = 8 then groupSize else groupSize / 2) = 32 := by
      cases format <;> cases hspec <;> decide
    have hsize : ∃ high, (rowSplitOf bits groupSize n
        k).payloadBytes = rowSplitSize groupSize 32 high n k := by
      refine ⟨if bits = 4 ∨ bits = 8 then 0
        else groupSize * (bits - 4) / 8, ?_⟩
      unfold rowSplitOf rowSplitSize
      dsimp only
      rw [hgroup.2]
      simp only [mul_assoc]
    obtain ⟨high, hsize⟩ := hsize
    rw [hsize] at hv
    have hpadded := padded_le_rowSplitSize high k hgroup.1 hn
    have hgroups := groups_le_rowSplitSize groupSize 32 high n k
    have hcol := le_alignUp 128 k (by decide)
    have hmod : Container.alignUp k 128 % 128 = 0 := Nat.mul_mod_left _ _
    have hperRow : 0 < Container.alignUp k 128 / groupSize := by
      rcases hgroup.1 with rfl | rfl
      · omega
      · omega
    have hrows := Nat.le_mul_of_pos_right n hperRow
    exact hpair hnumbers (by omega) (by omega)
  | blockScaleK16M128x4V1 =>
    obtain ⟨g, hg, h⟩ := bind_ok.mp h
    cases h
    unfold Container.blockScaleGeometry at hg
    split at hg
    swap
    · cases hg
    next groupSize hspec =>
    obtain rfl : groupSize = 16 := by
      cases format <;> cases hspec
      rfl
    obtain ⟨⟨n, k⟩, hshape, hg⟩ := bind_ok.mp hg
    dsimp only at hg
    split at hg
    · cases hg
    cases hg
    obtain ⟨hnumbers, hn, hk⟩ := shapeOfRankTwo_ok hshape
    have hge := le_alignUp 256 (n * k / 2) (by decide)
    unfold blockScaleOf at hv
    dsimp only at hv
    have hleft := Nat.le_mul_of_pos_right n hk
    have hright := Nat.le_mul_of_pos_left k hn
    exact hpair hnumbers (by omega) (by omega)
  | rowScaleV1 =>
    obtain ⟨g, hg, h⟩ := bind_ok.mp h
    cases h
    unfold Container.rowScaleGeometry at hg
    split at hg
    swap
    · cases hg
    obtain ⟨⟨n, k⟩, hshape, hg⟩ := bind_ok.mp hg
    cases hg
    obtain ⟨hnumbers, hn, hk⟩ := shapeOfRankTwo_ok hshape
    have hge := le_alignUp 256 (n * k) (by decide)
    unfold rowScaleOf at hv
    dsimp only at hv
    have hleft := Nat.le_mul_of_pos_right n hk
    have hright := Nat.le_mul_of_pos_left k hn
    exact hpair hnumbers (by omega) (by omega)

-- ============ the objects

/-- A tensor as the tools hold it. -/
def TensorDescriptor.toObject (t : TensorDescriptor) :
    TensorObject :=
  ⟨t.name, t.shape.map UInt64.toNat, formatName t.format,
    layoutName t.layout, t.offset.toNat, t.bytes.toNat⟩

/-- A resource as the tools hold it. -/
def ResourceDescriptor.toObject (r : ResourceDescriptor) :
    ResourceObject :=
  ⟨r.name, encodingName r.encoding, r.offset.toNat, r.bytes.toNat⟩

/-- An object as the tools hold it. -/
def ObjectDescriptor.toObject : ObjectDescriptor → ArtifactObject
  | tensor t => .tensor t.toObject
  | resource r => .resource r.toObject

/-- A tensor's size is its exact size, computed without a wrap. -/
def ExactTensor (strRepr : Bytes → Bytes) (t : TensorDescriptor) : Prop :=
  encodedSize strRepr (layoutName t.layout) (formatName t.format)
      (t.shape.map UInt64.toNat) = .ok t.bytes.toNat
    ∧ ∀ v ∈ exactNumbers t.layout t.format (t.shape.map UInt64.toNat), v < 2 ^ 64

/-- The size the words give is the size the numbers give. -/
theorem encodedSize_of_words (strRepr : Bytes → Bytes) {shape : List UInt64}
    {w : UInt64} (hpos : ∀ d ∈ shape, d ≠ 0)
    (h : tensorEncodedSize layout format shape = .ok w) :
    encodedSize strRepr (layoutName layout) (formatName format)
        (shape.map UInt64.toNat) = .ok w.toNat
      ∧ ∀ v ∈ exactNumbers layout format (shape.map UInt64.toNat),
        v < 2 ^ 64 := by
  have hagrees := tensorEncodedSize_agrees strRepr format layout hpos
  cases hsize : encodedSize strRepr (layoutName layout)
      (formatName format) (shape.map UInt64.toNat) with
  | error e =>
    rw [hsize] at hagrees
    obtain ⟨e', he'⟩ := hagrees
    rw [h] at he'
    cases he'
  | ok v =>
    rw [hsize] at hagrees
    obtain ⟨hw, hnumbers⟩ := Settles.of_ok hagrees h
    exact ⟨by rw [hw], hnumbers⟩

section

variable (strRepr : Bytes → Bytes) {value : Json} (hvalue : value.Canonical)

include hvalue

theorem parseTensor_container {t : TensorDescriptor}
    (h : parseTensor value = .ok t) :
    Container.parseTensor strRepr value = .ok t.toObject
      ∧ ExactTensor strRepr t := by
  unfold parseTensor at h
  obtain ⟨_, hmembers, h⟩ := bind_ok.mp h
  obtain ⟨name, hname, h⟩ := bind_ok.mp h
  obtain ⟨formatText, hformatText, h⟩ := bind_ok.mp h
  obtain ⟨format, hformat, h⟩ := bind_ok.mp h
  obtain ⟨layoutText, hlayoutText, h⟩ := bind_ok.mp h
  obtain ⟨layout, hlayout, h⟩ := bind_ok.mp h
  obtain ⟨offset, hoffset, h⟩ := bind_ok.mp h
  obtain ⟨stored, hstored, h⟩ := bind_ok.mp h
  obtain ⟨shape, hshape, h⟩ := bind_ok.mp h
  obtain ⟨expected, hexpected, h⟩ := bind_ok.mp h
  split at h
  · cases h
  next hsame =>
  obtain rfl : stored = expected := not_not.mp hsame
  cases h
  obtain rfl := parseFormat_iff.mp hformat
  obtain rfl := parseLayout_iff.mp hlayout
  have hdims : Container.requireShape (memberAt "shape" value)
      = .ok (shape.map UInt64.toNat) ∧ ∀ d ∈ shape, d ≠ 0 := by
    unfold requireShape at hshape
    split at hshape
    · next items heq =>
      unfold Container.requireShape
      rw [heq]
      exact requireDims_of_shape items shape hshape
    · cases hshape
  have hsize := encodedSize_of_words strRepr hdims.2 hexpected
  refine ⟨?_, hsize⟩
  have hhas := (requireMembers_iff hvalue (by decide) _).mp hmembers
  unfold Container.parseTensor
  rw [hhas, if_neg (by decide)]
  have hstring : Container.requireString = requireString := rfl
  rw [hstring, hname, ok_bind, hdims.1, ok_bind, hformatText, ok_bind,
    hlayoutText, ok_bind, (requireInteger_of_unsigned _ hoffset).1, ok_bind,
    (requireInteger_of_unsigned _ hstored).1, ok_bind, hsize.1, ok_bind,
    if_neg (by simp)]
  rfl

theorem container_parseTensor {a : TensorObject}
    (h : Container.parseTensor strRepr value = .ok a)
    (hend : a.offset + a.bytes < 2 ^ 63) :
    ∃ t, parseTensor value = .ok t ∧ t.toObject = a := by
  unfold Container.parseTensor at h
  split at h
  · cases h
  next hhas =>
  rw [Bool.not_eq_true', Bool.not_eq_false] at hhas
  obtain ⟨name, hname, h⟩ := bind_ok.mp h
  obtain ⟨dims, hdims, h⟩ := bind_ok.mp h
  obtain ⟨formatText, hformatText, h⟩ := bind_ok.mp h
  obtain ⟨layoutText, hlayoutText, h⟩ := bind_ok.mp h
  obtain ⟨offset, hoffset, h⟩ := bind_ok.mp h
  obtain ⟨bytes, hbytes, h⟩ := bind_ok.mp h
  obtain ⟨expected, hexpected, h⟩ := bind_ok.mp h
  split at h
  · cases h
  next hsame =>
  obtain rfl : bytes = expected := not_not.mp hsame
  cases h
  dsimp only at hend
  -- the names are registered, so the size is of a layout and a format
  obtain ⟨layout, rfl⟩ : ∃ l, layoutText = layoutName l := by
    unfold encodedSize at hexpected
    obtain ⟨spec, hspec, -⟩ := bind_ok.mp hexpected
    exact getLayout_name hspec
  obtain ⟨format, rfl⟩ : ∃ f, formatText = formatName f := by
    unfold encodedSize at hexpected
    obtain ⟨_, -, hrest⟩ := bind_ok.mp hexpected
    obtain ⟨spec, hspec, -⟩ := bind_ok.mp hrest
    exact getFormat_name hspec
  have hshape : ∃ items, memberAt "shape" value = .array items
      ∧ Container.requireDims items = .ok dims := by
    unfold Container.requireShape at hdims
    split at hdims
    · next items heq => exact ⟨items, heq, hdims⟩
    · cases hdims
  obtain ⟨items, hitems, hdims⟩ := hshape
  have hpos := requireDims_pos items dims hdims
  have hlt : ∀ n ∈ dims, n < 2 ^ 64 := by
    rw [encodedSize_names] at hexpected
    split at hexpected
    · next haccepts =>
      exact exactSize_dims hpos haccepts hexpected (by omega)
    · cases hexpected
  have hback : (dims.map UInt64.ofNat).map UInt64.toNat = dims := by
    rw [map_map]
    refine (map_congr_left ?_).trans (map_id _)
    intro n hn
    exact UInt64.toNat_ofNat_of_lt' (hlt n hn)
  have hwords : ∀ d ∈ dims.map UInt64.ofNat, d ≠ 0 := by
    intro d hd hzero
    obtain ⟨n, hn, rfl⟩ := mem_map.mp hd
    have hnat : (UInt64.ofNat n).toNat = n :=
      UInt64.toNat_ofNat_of_lt' (hlt n hn)
    rw [hzero] at hnat
    have hn' := hpos n hn
    rw [← hnat] at hn'
    exact lt_irrefl 0 hn'
  -- the size is below what the words refuse
  have hagrees := tensorEncodedSize_agrees strRepr format layout hwords
  rw [hback, hexpected] at hagrees
  obtain ⟨w, hw, hval, -⟩ := Settles.of_not hagrees (by omega)
  have hbytesWord : UInt64.ofNat bytes = w := by
    rw [← hval]
    exact UInt64.ofNat_toNat
  refine ⟨⟨name, dims.map UInt64.ofNat, format, layout,
    UInt64.ofNat offset, UInt64.ofNat bytes⟩, ?_, ?_⟩
  · have hstring : Container.requireString = requireString := rfl
    rw [hstring] at hname hformatText hlayoutText
    unfold parseTensor
    rw [(requireMembers_iff hvalue (by decide) "tensor entry").mpr hhas,
      ok_bind, hname, ok_bind, hformatText, ok_bind,
      parseFormat_iff.mpr rfl, ok_bind, hlayoutText, ok_bind,
      parseLayout_iff.mpr rfl, ok_bind,
      requireUnsigned_of_integer _ hoffset (by omega), ok_bind,
      requireUnsigned_of_integer _ hbytes (by omega), ok_bind, hitems]
    unfold requireShape
    dsimp only
    rw [parseShape_of_dims items dims hdims hlt, ok_bind, hw, ok_bind,
      hbytesWord, if_neg (by simp)]
  · unfold TensorDescriptor.toObject
    dsimp only
    rw [hback, UInt64.toNat_ofNat_of_lt' (show offset < 2 ^ 64 by omega),
      UInt64.toNat_ofNat_of_lt' (show bytes < 2 ^ 64 by omega)]

theorem parseResource_container {r : ResourceDescriptor}
    (h : parseResource value = .ok r) :
    Container.parseResource value = .ok r.toObject := by
  unfold parseResource at h
  obtain ⟨_, hmembers, h⟩ := bind_ok.mp h
  obtain ⟨name, hname, h⟩ := bind_ok.mp h
  obtain ⟨encodingText, hencodingText, h⟩ := bind_ok.mp h
  obtain ⟨encoding, hencoding, h⟩ := bind_ok.mp h
  obtain ⟨offset, hoffset, h⟩ := bind_ok.mp h
  obtain ⟨bytes, hbytes, h⟩ := bind_ok.mp h
  cases h
  obtain rfl := parseEncoding_iff.mp hencoding
  have hhas := (requireMembers_iff hvalue (by decide) _).mp hmembers
  have halign : Container.resourceAlignment (encodingName encoding)
      = .ok 1 := by
    cases encoding
    rfl
  have hstring : Container.requireString = requireString := rfl
  unfold Container.parseResource
  rw [hhas, if_neg (by decide), hstring, hname, ok_bind, hencodingText,
    ok_bind, halign, ok_bind, (requireInteger_of_unsigned _ hoffset).1,
    ok_bind, (requireInteger_of_unsigned _ hbytes).1, ok_bind]
  rfl

theorem container_parseResource {a : ResourceObject}
    (h : Container.parseResource value = .ok a)
    (hend : a.offset + a.bytes < 2 ^ 63) :
    ∃ r, parseResource value = .ok r ∧ r.toObject = a := by
  unfold Container.parseResource at h
  split at h
  · cases h
  next hhas =>
  rw [Bool.not_eq_true', Bool.not_eq_false] at hhas
  obtain ⟨name, hname, h⟩ := bind_ok.mp h
  obtain ⟨encodingText, hencodingText, h⟩ := bind_ok.mp h
  obtain ⟨alignment, halign, h⟩ := bind_ok.mp h
  obtain ⟨offset, hoffset, h⟩ := bind_ok.mp h
  obtain ⟨bytes, hbytes, h⟩ := bind_ok.mp h
  cases h
  dsimp only at hend
  obtain rfl : encodingText = ascii "raw-bytes-v1" := by
    unfold Container.resourceAlignment at halign
    split at halign
    · cases halign
    · next heq => exact not_not.mp heq
  have hstring : Container.requireString = requireString := rfl
  rw [hstring] at hname hencodingText
  refine ⟨⟨name, .rawBytesV1, UInt64.ofNat offset, UInt64.ofNat bytes⟩, ?_, ?_⟩
  · have hencoding : parseEncoding (ascii "raw-bytes-v1") = .ok .rawBytesV1 := rfl
    unfold parseResource
    rw [(requireMembers_iff hvalue (by decide) "resource entry").mpr hhas,
      ok_bind, hname, ok_bind, hencodingText, ok_bind, hencoding, ok_bind,
      requireUnsigned_of_integer _ hoffset (by omega), ok_bind,
      requireUnsigned_of_integer _ hbytes (by omega), ok_bind]
  · unfold ResourceDescriptor.toObject
    dsimp only
    rw [UInt64.toNat_ofNat_of_lt' (show offset < 2 ^ 64 by omega),
      UInt64.toNat_ofNat_of_lt' (show bytes < 2 ^ 64 by omega)]
    rfl

end

/-- What holds of an object beside its range. -/
def ExactObject (strRepr : Bytes → Bytes) : ObjectDescriptor → Prop
  | .tensor t => ExactTensor strRepr t
  | .resource _ => True

section

variable (strRepr : Bytes → Bytes) {value : Json} (hvalue : value.Canonical)

include hvalue

/-- An object the words accept, the numbers accept. -/
theorem parseObject_container {o : ObjectDescriptor}
    (h : parseObject value = .ok o) :
    Container.parseObject strRepr value = .ok o.toObject
      ∧ ExactObject strRepr o := by
  unfold parseObject at h
  split at h
  · cases h
  next hobject =>
  split at h
  swap
  · cases h
  next kind hkind =>
  unfold parseKind at h
  unfold Container.parseObject
  rw [if_neg hobject, hkind]
  unfold Container.parseKind
  dsimp only
  split at h
  · next htensor =>
    rw [if_pos htensor]
    obtain ⟨t, ht, h⟩ := bind_ok.mp h
    cases h
    obtain ⟨hobj, hexact⟩ := parseTensor_container strRepr hvalue ht
    rw [hobj]
    exact ⟨rfl, hexact⟩
  next htensor =>
  split at h
  · next hresource =>
    rw [if_neg htensor, if_pos hresource]
    obtain ⟨r, hr, h⟩ := bind_ok.mp h
    cases h
    rw [parseResource_container hvalue hr]
    exact ⟨rfl, trivial⟩
  · cases h

/-- An object the numbers accept that ends within a file, the words
accept. -/
theorem container_parseObject {a : ArtifactObject}
    (h : Container.parseObject strRepr value = .ok a)
    (hend : a.offset + a.bytes < 2 ^ 63) :
    ∃ o, parseObject value = .ok o ∧ o.toObject = a := by
  unfold Container.parseObject at h
  split at h
  · cases h
  next hobject =>
  split at h
  swap
  · cases h
  next kind hkind =>
  unfold Container.parseKind at h
  unfold parseObject
  rw [if_neg hobject, hkind]
  unfold parseKind
  dsimp only
  split at h
  · next htensor =>
    rw [if_pos htensor]
    obtain ⟨t, ht, h⟩ := bind_ok.mp h
    cases h
    obtain ⟨o, ho, rfl⟩ := container_parseTensor strRepr hvalue ht hend
    rw [ho]
    exact ⟨.tensor o, rfl, rfl⟩
  next htensor =>
  split at h
  · next hresource =>
    rw [if_neg htensor, if_pos hresource]
    obtain ⟨r, hr, h⟩ := bind_ok.mp h
    cases h
    obtain ⟨o, ho, rfl⟩ := container_parseResource hvalue hr hend
    rw [ho]
    exact ⟨.resource o, rfl, rfl⟩
  · cases h

end

end Ginfer.Artifact
