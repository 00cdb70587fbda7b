/-
Layouts that are ahead of each other.

A builder that is ahead by a multiple of 256 hands out its next region
just as far ahead (`region_leads`): the padding in front of it is the
same. So a planner of regions of fixed sizes keeps two builders apart as
they are, and a pool whose planes take a multiple of 256 bytes for every
page moves them further by what its planes take (`planPagedKVPool_leads`).
The one excuse is that the larger layout does not fit in a `std::size_t`.
-/
import Mathlib.Data.Nat.Bitwise
import Mathlib.Algebra.BigOperators.Ring.List
import Mathlib.Tactic.Ring
import Ginfer.Layout.Builder

namespace Ginfer.Layout

open Ginfer.Lib List Tensor
open Ginfer.KvCapacity (checkedAdd)
open Ginfer.Pool (pagedKVPageSize)

-- ============ the arithmetic

/-- The excuse of a larger layout. -/
def Overflows (e : Exception) : Prop := ∃ what, e = .overflowError what

/-- `value & ~mask`. -/
theorem and_complement {s k : Nat} (hs : s < 2 ^ 64) (hk : k ≤ 64) :
    s &&& (2 ^ 64 - 1 - (2 ^ k - 1)) = s / 2 ^ k * 2 ^ k := by
  have hmask : 2 ^ 64 - 1 - (2 ^ k - 1) = (2 ^ (64 - k) - 1) <<< k := by
    have hpow : 2 ^ (64 - k) * 2 ^ k = 2 ^ 64 := by
      rw [← pow_add, Nat.sub_add_cancel hk]
    have hpos := Nat.two_pow_pos k
    rw [Nat.shiftLeft_eq, Nat.sub_mul, hpow]
    omega
  have hrhs : s / 2 ^ k * 2 ^ k = (s >>> k) <<< k := by
    rw [Nat.shiftLeft_eq, Nat.shiftRight_eq_div_pow]
  rw [hmask, hrhs]
  refine Nat.eq_of_testBit_eq fun i => ?_
  rw [Nat.testBit_and, Nat.testBit_shiftLeft, Nat.testBit_shiftLeft,
    Nat.testBit_two_pow_sub_one, Nat.testBit_shiftRight]
  by_cases hi : k ≤ i
  · rw [Nat.add_sub_cancel' hi]
    by_cases hlt : i < 64
    · rw [decide_eq_true (by omega : i - k < 64 - k)]
      simp [hi]
    · have hfalse : s.testBit i = false :=
        Nat.testBit_lt_two_pow (lt_of_lt_of_le hs
          (Nat.pow_le_pow_right (by decide) (by omega)))
      rw [hfalse]
      simp
  · simp [hi]

theorem alignUp_256 (value : Nat) (label : String) :
    alignUp value 256 label
      = if 2 ^ 64 - 1 - value < 255 then
        .error (.overflowError (label ++ " size overflow"))
        else .ok ((value + 255) / 256 * 256) := by
  have hpower : isPowerOfTwo 256 = true := by decide
  unfold alignUp checkedAdd
  rw [hpower, Bool.not_true, if_neg Bool.false_ne_true]
  split
  · rfl
  · refine congrArg Except.ok ?_
    exact and_complement (s := value + 255) (k := 8) (by omega) (by decide)

/-- What `add` does at the alignment of the arena. -/
theorem add_256 (b : LayoutBuilder) (bytes : Nat) (label : String) :
    b.add bytes 256 label
      = if bytes = 0 then
        .error (.invalidArgument (label ++ " must not be empty"))
        else if 2 ^ 64 - 1 - b.cursor < 255
            ∨ 2 ^ 64 - 1 - (b.cursor + 255) / 256 * 256 < bytes then
          .error (.overflowError (label ++ " size overflow"))
        else .ok (⟨(b.cursor + 255) / 256 * 256, bytes, 256⟩,
        ⟨(b.cursor + 255) / 256 * 256 + bytes,
          max b.peak ((b.cursor + 255) / 256 * 256 + bytes)⟩) := by
  unfold LayoutBuilder.add
  split
  · rfl
  · rw [alignUp_256]
    dsimp only [bind, Except.bind]
    by_cases halign : 2 ^ 64 - 1 - b.cursor < 255
    · rw [if_pos halign, if_pos (.inl halign)]
    · rw [if_neg halign]
      dsimp only
      unfold checkedAdd
      by_cases hfits : 2 ^ 64 - 1 - (b.cursor + 255) / 256 * 256 < bytes
      · rw [if_pos hfits, if_pos (.inr hfits)]
      · rw [if_neg hfits, if_neg (by tauto)]
        rfl

-- ============ the regions

/-- One builder is `d` ahead of another. A planner opens no scopes, so
either has its peak at its cursor. -/
structure Ahead (d : Nat) (s t : Planned) : Prop where
  aligned : 256 ∣ d
  cursor : t.builder.cursor = s.builder.cursor + d
  peak : s.builder.peak = s.builder.cursor
  later_peak : t.builder.peak = t.builder.cursor

/-- A region that takes `extra` bytes more. -/
theorem region_leads {extra : Nat} (hextra : 256 ∣ extra) (bytes : Nat)
    (label : String) :
    Leads Ahead Overflows extra (region bytes 256 label)
      (region (bytes + extra) 256 label) := by
  intro d s t ⟨hd, hcursor, hpeak, hlater⟩ a s' hrun
  unfold region at hrun ⊢
  rw [add_256] at hrun ⊢
  by_cases hzero : bytes = 0
  · rw [if_pos hzero] at hrun
    cases hrun
  · rw [if_neg hzero] at hrun
    rw [if_neg (by omega)]
    split at hrun
    · cases hrun
    · next hfits =>
      obtain ⟨-, rfl⟩ := Prod.mk.inj (Except.ok.inj hrun)
      split
      · exact .inr ⟨_, rfl, _, rfl⟩
      · have hpad : (t.builder.cursor + 255) / 256 * 256
            = (s.builder.cursor + 255) / 256 * 256 + d := by
          obtain ⟨q, rfl⟩ := hd
          rw [hcursor]
          omega
        have hmax : ∀ b : Planned, b.builder.peak = b.builder.cursor →
            ∀ n, max b.builder.peak ((b.builder.cursor + 255) / 256 * 256 + n)
              = (b.builder.cursor + 255) / 256 * 256 + n := by
          intro b hb n
          rw [hb]
          exact Nat.max_eq_right (by omega)
        refine .inl ⟨_, rfl, Nat.dvd_add hd hextra, ?_, hmax s hpeak _,
          hmax t hlater _⟩
        exact (congrArg (· + (bytes + extra)) hpad).trans
          (Nat.add_add_add_comm _ _ _ _)

/-- A region of a fixed size. -/
theorem region_same (bytes : Nat) (label : String) :
    Leads Ahead Overflows 0 (region bytes 256 label) (region bytes 256 label) :=
  region_leads (Nat.dvd_zero 256) bytes label

-- ============ the tensors

/-- The elements of a shape. -/
def elements (shape : List Int) : Nat := (shape.map Int.toNat).prod

theorem checkedMulI64_positive {a b : Int} (ha : 0 ≤ a) (hb : 0 ≤ b) :
    checkedMulI64 a b = .ok (a * b)
      ∨ ∃ e, checkedMulI64 a b = .error e ∧ Overflows e := by
  unfold checkedMulI64
  rw [if_neg (by omega)]
  split
  · exact .inr ⟨_, rfl, _, rfl⟩
  · exact .inl rfl

variable {shape : List Int}

theorem contiguousStrides_positive :
    ∀ (stride : Int), 0 ≤ stride → (∀ dim ∈ shape, 0 < dim) →
      (∃ nb, contiguousStrides stride shape = .ok nb)
        ∨ ∃ e, contiguousStrides stride shape = .error e ∧ Overflows e := by
  induction shape with
  | nil => exact fun stride _ _ => .inl ⟨_, rfl⟩
  | cons dim rest ih =>
    intro stride hstride hpos
    cases rest with
    | nil => exact .inl ⟨_, rfl⟩
    | cons next rest =>
      have hdim := hpos dim (.head _)
      rw [contiguousStrides]
      · rcases checkedMulI64_positive hstride (Int.le_of_lt hdim) with
          hmul | ⟨e, hmul, he⟩
        · rw [hmul]
          rcases ih (stride * dim) (Int.mul_nonneg hstride (Int.le_of_lt hdim))
            (fun d hd => hpos d (.tail _ hd)) with
            ⟨nb, hnb⟩ | ⟨e, hnb, he⟩
          · rw [ok_bind, hnb]
            exact .inl ⟨_, rfl⟩
          · rw [ok_bind, hnb]
            exact .inr ⟨e, rfl, he⟩
        · rw [hmul]
          exact .inr ⟨e, rfl, he⟩
      · simp

theorem shapeNumel_positive :
    ∀ (total : Nat), (∀ dim ∈ shape, 0 < dim) →
      shapeNumel total shape = .ok ((total * elements shape : Nat) : Int)
        ∨ ∃ e, shapeNumel total shape = .error e ∧ Overflows e := by
  induction shape with
  | nil =>
    intro total _
    left
    simp [shapeNumel, elements]
  | cons dim rest ih =>
    intro total hpos
    have hdim := hpos dim (.head _)
    rw [shapeNumel, if_neg (by omega)]
    rcases checkedMulI64_positive (Int.natCast_nonneg total)
      (Int.le_of_lt hdim) with hmul | ⟨e, hmul, he⟩
    · rw [hmul, ok_bind]
      have hnext : (total : Int) * dim = ((total * dim.toNat : Nat) : Int)
          := by
        rw [Int.natCast_mul, Int.toNat_of_nonneg (Int.le_of_lt hdim)]
      rw [hnext]
      have hproduct : total * elements (dim :: rest)
          = total * dim.toNat * elements rest := by
        unfold elements
        rw [map_cons, prod_cons, mul_assoc]
      rw [hproduct]
      exact ih _ fun d hd => hpos d (.tail _ hd)
    · rw [hmul]
      exact .inr ⟨e, rfl, he⟩

variable {dtype : DType}

/-- The bytes of a tensor that has a shape. -/
theorem tensor_bytes (hne : shape ≠ [])
    (hrank : shape.length ≤ 4) (hpos : ∀ dim ∈ shape, 0 < dim) :
    (make dtype shape >>= bytes) = .ok (elements shape * dtype.size)
      ∨ ∃ e, (make dtype shape >>= bytes) = .error e
        ∧ Overflows e := by
  have hnorm : normalizeShape shape
      = .ok (shape ++ List.replicate (4 - shape.length) 1) := by
    unfold normalizeShape
    rw [if_neg (by simp [hne, hrank]), if_neg]
    rw [Bool.not_eq_true, any_eq_false]
    intro dim hdim
    have := hpos dim hdim
    simpa using this
  have hpos' : ∀ dim ∈ shape ++ List.replicate (4 - shape.length) 1,
      (0 : Int) < dim := by
    intro dim hdim
    rcases mem_append.mp hdim with h | h
    · exact hpos dim h
    · rw [eq_of_mem_replicate h]
      decide
  have helements : elements (shape ++ List.replicate (4 - shape.length) 1)
      = elements shape := by
    unfold elements
    rw [map_append, prod_append, map_replicate]
    simp
  unfold make
  rw [hnorm, ok_bind]
  rcases contiguousStrides_positive dtype.size (Int.natCast_nonneg _) hpos'
    with ⟨nb, hnb⟩ | ⟨e, hnb, he⟩
  · rw [hnb, ok_bind]
    change bytes _ = _ ∨ ∃ e, bytes _ = _ ∧ _
    unfold bytes
    rcases shapeNumel_positive 1 hpos' with hn | ⟨e, hn, he⟩
    · rw [one_mul, helements] at hn
      change shapeNumel 1 _ = _ at hn
      dsimp only
      rw [hn, ok_bind]
      rw [Int.toNat_natCast]
      split
      · exact .inr ⟨_, rfl, _, rfl⟩
      · split
        · exact .inr ⟨_, rfl, _, rfl⟩
        · exact .inl rfl
    · change shapeNumel 1 _ = _ at hn
      dsimp only
      rw [hn]
      exact .inr ⟨e, rfl, he⟩
  · rw [hnb]
    exact .inr ⟨e, rfl, he⟩

/-- A tensor that was made has a shape. -/
theorem make_ok {t : Tensor} (h : make dtype shape = .ok t) :
    shape ≠ [] ∧ shape.length ≤ 4 ∧ ∀ dim ∈ shape, 0 < dim := by
  unfold make at h
  obtain ⟨ne, hne, -⟩ := bind_ok.mp h
  unfold normalizeShape at hne
  rw [guard_ok, guard_ok, Bool.not_eq_true, any_eq_false] at hne
  obtain ⟨hrank, hpos, -⟩ := hne
  refine ⟨fun hnil => hrank (.inl hnil), by omega, fun dim hdim => ?_⟩
  have := hpos dim hdim
  simpa using this

theorem addTensor_eq (dtype : DType) (shape : List Int) (alignment : Nat)
    (label : String) :
    addTensor dtype shape alignment label
      = checked (make dtype shape >>= bytes) >>= fun bytes =>
        region bytes alignment label := by
  funext s
  unfold addTensor
  change ((make dtype shape).map fun a => (a, s)) >>= _
    = ((make dtype shape >>= bytes).map fun a => (a, s)) >>= _
  cases make dtype shape with
  | error e => rfl
  | ok t => rfl

/-- A tensor of a fixed shape. -/
theorem addTensor_same (dtype : DType) (shape : List Int) (label : String) :
    Leads Ahead Overflows 0 (addTensor dtype shape 256 label)
      (addTensor dtype shape 256 label) := by
  rw [addTensor_eq]
  exact leads_checked fun bytes _ => region_same bytes label

/-- A tensor whose shape is larger in the second layout. -/
theorem addTensor_leads {shape' : List Int}
    {extra : Nat} (hne : shape' ≠ []) (hrank : shape'.length ≤ 4)
    (hpos : (∀ dim ∈ shape, 0 < dim) → ∀ dim ∈ shape', 0 < dim)
    (hbytes : elements shape' * dtype.size = elements shape * dtype.size + extra)
    (hextra : 256 ∣ extra) (label : String) :
    Leads Ahead Overflows extra (addTensor dtype shape 256 label)
      (addTensor dtype shape' 256 label) := by
  rw [addTensor_eq, addTensor_eq]
  refine leads_checked_bind fun bytes h => ?_
  obtain ⟨t, ht, -⟩ := bind_ok.mp h
  obtain ⟨hne₀, hrank₀, hpos₀⟩ := make_ok ht
  obtain rfl : elements shape * dtype.size = bytes := by
    rcases tensor_bytes hne₀ hrank₀ hpos₀ with hok | ⟨e, he, -⟩
    · exact Except.ok.inj (hok.symm.trans h)
    · rw [he] at h
      cases h
  rcases tensor_bytes hne hrank (hpos hpos₀) with hok | herror
  · rw [hbytes] at hok
    exact .inl ⟨_, hok, region_leads hextra _ label⟩
  · exact .inr herror

-- ============ the paged KV pool

/-- The bytes of a plane's page. -/
def PagedKVPlaneSpec.pageBytes (plane : PagedKVPlaneSpec) : Nat :=
  plane.leadingExtent.toNat * pagedKVPageSize * plane.headExtent.toNat
    * plane.dtype.size

/-- The bytes a pool takes for a page. -/
def pagesBytes (planes : List PagedKVPlaneSpec) : Nat :=
  (planes.map (·.pageBytes)).sum

/-- A plane of the arena, whose pages are whole alignments. -/
def PagedKVPlaneSpec.Even (plane : PagedKVPlaneSpec) : Prop :=
  plane.alignment = 256 ∧ plane.alignment ∣ plane.pageBytes

theorem elements_shape (plane : PagedKVPlaneSpec) (order : PagedKVPlaneOrder)
    (pages : Nat) :
    elements (plane.shape order pages) * plane.dtype.size
      = pages * plane.pageBytes := by
  unfold PagedKVPlaneSpec.shape PagedKVPlaneSpec.pageBytes elements
  cases order with
  | pageMajor =>
    simp only [map_cons, map_nil, prod_cons, prod_nil, Int.toNat_natCast]
    ring
  | headMajor =>
    simp only [map_cons, map_nil, prod_cons, prod_nil, Int.toNat_natCast]
    ring

/-- A plane takes its pages. -/
theorem planPlane_leads {order : PagedKVPlaneOrder}
    {entry : PagedKVPlaneSpec × Nat} (heven : entry.1.Even) (p k : Nat)
    (hp : 0 < p) :
    Leads Ahead Overflows (k * entry.1.pageBytes)
      (planPlane order p entry) (planPlane order (p + k : Nat) entry) := by
  obtain ⟨plane, index⟩ := entry
  obtain ⟨halignment, hdvd⟩ := heven
  dsimp only at halignment hdvd ⊢
  unfold planPlane
  dsimp only
  rw [halignment] at hdvd ⊢
  refine leads_refuse id fun hextents => addTensor_leads ?_ ?_ ?_ ?_
    (Nat.dvd_mul_left_of_dvd hdvd k) _
  · cases order <;> simp [PagedKVPlaneSpec.shape]
  · cases order <;> simp [PagedKVPlaneSpec.shape]
  · intro hpos dim hdim
    have hsize : (0 : Int) < pagedKVPageSize := by decide
    cases order with
    | pageMajor =>
      simp only [PagedKVPlaneSpec.shape, mem_cons,
        not_mem_nil, or_false] at hdim
      omega
    | headMajor =>
      simp only [PagedKVPlaneSpec.shape, mem_cons,
        not_mem_nil, or_false] at hdim
      omega
  · rw [elements_shape, elements_shape]
    ring

/-- A pool with more pages takes the pages of its planes; its block tables
stay as they are. -/
theorem planPagedKVPool_leads {logical : Nat} {tableRows : Int}
    {order : PagedKVPlaneOrder} {planes : List PagedKVPlaneSpec} {p k : Nat}
    (heven : ∀ plane ∈ planes, plane.Even) (hp : 0 < p)
    (hfits : p + k < 2 ^ 31) :
    Leads Ahead Overflows (k * pagesBytes planes)
      (planPagedKVPool ⟨p, logical, tableRows, order, planes⟩)
      (planPagedKVPool ⟨p + k, logical, tableRows, order, planes⟩) := by
  have hcount : ∀ n, 0 < n → n < 2 ^ 31 → ∀ label,
      checkedPageI32 n label = .ok (n : Int) := by
    intro n hpos hlt label
    unfold checkedPageI32
    rw [if_neg (by omega)]
  have hsum : (planes.zipIdx.map fun entry =>
      k * entry.1.pageBytes).sum = k * pagesBytes planes := by
    calc (planes.zipIdx.map fun entry => k * entry.1.pageBytes).sum
        = ((planes.zipIdx.map Prod.fst).map
            fun plane => k * plane.pageBytes).sum := by
          rw [map_map]
          rfl
      _ = k * pagesBytes planes := by
          rw [zipIdx_map_fst, sum_map_mul_left]
          rfl
  have hloop : Leads Ahead Overflows
      (planes.zipIdx.map fun entry => k * entry.1.pageBytes).sum
      (planes.zipIdx.forM (planPlane order p))
      (planes.zipIdx.forM (planPlane order (p + k : Nat))) :=
    leads_forM planes.zipIdx fun entry hentry =>
      planPlane_leads (heven entry.1 (fst_mem_of_mem_zipIdx hentry)) p k hp
  rw [hsum] at hloop
  unfold planPagedKVPool
  dsimp only
  rw [hcount p hp (by omega), hcount (p + k) (by omega) hfits]
  refine leads_checked_bind fun pages hpages =>
    .inl ⟨(p + k : Nat), rfl, ?_⟩
  cases hpages
  refine leads_checked fun logical _ => ?_
  refine leads_refuse id fun _ => leads_refuse id fun _ => ?_
  exact hloop.after fun _ => addTensor_same _ _ _

-- ============ the fixed regions

theorem planCyclicKVCache_same (layers capacity : Nat)
    (numKVHeads headDim laneCapacity : Int) :
    Leads Ahead Overflows 0
      (planCyclicKVCache layers capacity numKVHeads headDim laneCapacity)
      (planCyclicKVCache layers capacity numKVHeads headDim laneCapacity) := by
  unfold planCyclicKVCache
  refine leads_refuse id fun _ => leads_checked fun padded _ => ?_
  refine leads_forM_same _ fun layer _ => ?_
  exact (addTensor_same _ _ _).before fun _ => addTensor_same _ _ _

theorem requirePositive_same {f : Planning Unit} (value : Int)
    (label : String) (h : Leads Ahead Overflows 0 f f) :
    Leads Ahead Overflows 0 (requirePositive value label >>= fun _ => f)
      (requirePositive value label >>= fun _ => f) :=
  leads_refuse id fun _ => h

theorem planGdnReplayRecords_same (spec : GdnReplayRecordSpec) :
    Leads Ahead Overflows 0 (planGdnReplayRecords spec)
      (planGdnReplayRecords spec) := by
  have hvalidate : Leads Ahead Overflows 0 spec.validate spec.validate := by
    unfold GdnReplayRecordSpec.validate
    iterate 8 refine requirePositive_same _ _ ?_
    refine leads_refuse id fun _ => leads_refuse id fun _ => ?_
    exact leads_checked fun _ _ => leads_pure ()
  unfold planGdnReplayRecords
  refine hvalidate.before fun _ => leads_checked fun outer _ => ?_
  refine (addTensor_same _ _ _).before fun _ => ?_
  refine (addTensor_same _ _ _).before fun _ => ?_
  exact (addTensor_same _ _ _).before fun _ => addTensor_same _ _ _

theorem planLinearAttentionStatePool_same (spec : LinearAttentionStatePoolSpec) :
    Leads Ahead Overflows 0 (planLinearAttentionStatePool spec)
      (planLinearAttentionStatePool spec) := by
  unfold planLinearAttentionStatePool validatePositive
  iterate 9 refine leads_refuse id fun _ => ?_
  refine leads_checked fun conv _ => leads_checked fun recurrent _ => ?_
  refine leads_forM_same _ fun layer _ => ?_
  refine leads_checked fun convBytes _ => ?_
  refine (region_same _ _).before fun _ => ?_
  exact leads_checked fun recurrentBytes _ => region_same _ _

end Ginfer.Layout
