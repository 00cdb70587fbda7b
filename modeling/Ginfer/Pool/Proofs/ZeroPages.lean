/-
`zero_pages` stores zero to each byte of the named pages once, and nowhere
else (`zeroPages_exact`).

Every plane is a grid of rows in which the pages lie side by side: one row
when the pages are outermost, a row a head otherwise (`Grid`). The bytes
of a page are a column of that grid (`belongs_iff`), and what is filled
for a run of pages is a rectangle of it (`mem_rectangle`). A pool bound
over a planned layout has such planes (`PlanePool.bind`).
-/
import Ginfer.Layout.Proofs.Workspace
import Ginfer.Lib.Lists
import Ginfer.Lib.Strides
import Ginfer.Pool.ZeroPages

namespace Ginfer.Pool.ZeroPages

open Ginfer.Lib List
open Ginfer.Layout
open Ginfer.KvCapacity (checkedAdd)

-- ============ the grid

/-- Where an element of a page starts in its plane: its leading position,
its slot in the page and its head. -/
def elementOffset (order : PagedKVPlaneOrder) (plane : Plane)
    (page d slot head : Nat) : Nat :=
  match order with
  | .pageMajor =>
    d * plane.nb 0 + slot * plane.nb 1 + head * plane.nb 2 + page * plane.nb 3
  | .headMajor =>
    d * plane.nb 0 + slot * plane.nb 1 + page * plane.nb 2 + head * plane.nb 3

/-- An address is that of a byte of an element of the page. -/
def Belongs (order : PagedKVPlaneOrder) (plane : Plane) (page : Int)
    (address : Nat) : Prop :=
  ∃ d < plane.spec.leadingExtent.toNat, ∃ slot < pagedKVPageSize,
    ∃ head < plane.spec.headExtent.toNat, ∃ byte < plane.spec.dtype.size,
      address = plane.data + elementOffset order plane page.toNat d slot head
        + byte

/-- A plane as rows of pages side by side. -/
structure Grid where
  data : Nat
  rows : Nat
  pitch : Nat
  width : Nat
  pages : Nat
  room : pages * width ≤ pitch

namespace Grid

instance : Inhabited Grid := ⟨⟨0, 0, 0, 0, 0, le_refl 0⟩⟩

/-- The column of a page. -/
def InPage (grid : Grid) (page address : Nat) : Prop :=
  ∃ row < grid.rows, ∃ i < grid.width,
    address = grid.data + row * grid.pitch + (page * grid.width + i)

/-- The rectangle of `count` pages from `first` on. -/
def rectangle (grid : Grid) (first count : Nat) : Fill :=
  (List.range grid.rows).flatMap fun row =>
    memsetAsync (grid.data + first * grid.width + row * grid.pitch) 0
      (count * grid.width)

variable {grid : Grid}

/-- A byte of the grid is before its end, and its page is its own. -/
theorem InPage.bounds {page address : Nat} (hpage : page < grid.pages)
    (h : grid.InPage page address) :
    grid.data ≤ address ∧ address < grid.data + grid.rows * grid.pitch := by
  obtain ⟨row, hrow, i, hi, rfl⟩ := h
  have hcolumn := digits_lt hpage hi
  have hend := digits_lt hrow (lt_of_lt_of_le hcolumn grid.room)
  omega

theorem InPage.unique {page page' address : Nat} (hpage : page < grid.pages)
    (hpage' : page' < grid.pages) (h : grid.InPage page address)
    (h' : grid.InPage page' address) : page = page' := by
  obtain ⟨row, -, i, hi, rfl⟩ := h
  obtain ⟨row', -, i', hi', haddress⟩ := h'
  rw [add_assoc, add_assoc] at haddress
  have hcolumn := (digits_inj (lt_of_lt_of_le (digits_lt hpage hi) grid.room)
    (lt_of_lt_of_le (digits_lt hpage' hi') grid.room)
    (Nat.add_left_cancel haddress)).2
  exact (digits_inj hi hi' hcolumn).1

theorem mem_rectangle {first count : Nat} {store : Nat × UInt8} :
    store ∈ grid.rectangle first count ↔
      store.2 = 0 ∧ ∃ page, first ≤ page ∧ page < first + count ∧
        grid.InPage page store.1 := by
  obtain ⟨address, value⟩ := store
  simp only [rectangle, memsetAsync, mem_flatMap, mem_map,
    mem_range, Prod.mk.injEq]
  constructor
  · rintro ⟨row, hrow, k, hk, rfl, rfl⟩
    obtain ⟨a, ha, i, hi, rfl⟩ := digits_iff.mpr hk
    exact ⟨rfl, first + a, by omega, by omega, row, hrow, i, hi, by ring⟩
  · rintro ⟨rfl, page, hfirst, hlast, row, hrow, i, hi, rfl⟩
    obtain ⟨a, rfl⟩ := Nat.exists_eq_add_of_le hfirst
    exact ⟨row, hrow, a * grid.width + i, digits_lt (by omega) hi, by ring, rfl⟩

theorem rectangle_nodup {first count : Nat} (h : first + count ≤ grid.pages) :
    ((grid.rectangle first count).map Prod.fst).Nodup := by
  have hroom : first * grid.width + count * grid.width ≤ grid.pitch := by
    rw [← add_mul]
    exact le_trans (Nat.mul_le_mul_right _ h) grid.room
  rw [rectangle, map_flatMap, nodup_flatMap]
  constructor
  · intro row _
    rw [memsetAsync, map_map]
    exact nodup_range.map fun i j hij => Nat.add_left_cancel hij
  · refine nodup_range.imp ?_
    intro row row' hne address h h'
    simp only [memsetAsync, map_map, mem_map, mem_range,
      Function.comp_apply] at h h'
    obtain ⟨i, hi, rfl⟩ := h
    obtain ⟨i', hi', haddress⟩ := h'
    have hrow : row * grid.pitch + (first * grid.width + i)
        = row' * grid.pitch + (first * grid.width + i') := by omega
    exact hne (digits_inj (by omega) (by omega) hrow).1

end Grid

-- ============ the planes

/-- The strides of a plane. -/
theorem make_strides {dtype : DType} {a b c d : Int} {t : Tensor}
    (h : Tensor.make dtype [a, b, c, d] = .ok t) :
    t.ne = [a, b, c, d] ∧
      t.nb = [(dtype.size : Int), dtype.size * a, dtype.size * a * b,
        dtype.size * a * b * c] := by
  have hmul : ∀ {x y z : Int}, checkedMulI64 x y = .ok z → z = x * y := by
    intro x y z hz
    unfold checkedMulI64 at hz
    rw [guard_ok, guard_ok] at hz
    exact (Except.ok.inj hz.2.2).symm
  unfold Tensor.make at h
  obtain ⟨ne, hne, h⟩ := bind_ok.mp h
  obtain ⟨nb, hnb, h⟩ := bind_ok.mp h
  cases h
  unfold normalizeShape at hne
  rw [guard_ok, guard_ok] at hne
  obtain rfl := Except.ok.inj hne.2.2
  simp only [length_cons, length_nil, Nat.reduceAdd, Nat.sub_self,
    replicate_zero, append_nil, contiguousStrides] at hnb
  obtain ⟨s1, h1, hnb⟩ := bind_ok.mp hnb
  obtain ⟨more, hmore, hnb⟩ := bind_ok.mp hnb
  obtain ⟨s2, h2, hmore⟩ := bind_ok.mp hmore
  obtain ⟨last, hlast, hmore⟩ := bind_ok.mp hmore
  obtain ⟨s3, h3, hlast⟩ := bind_ok.mp hlast
  obtain ⟨end4, hend, hlast⟩ := bind_ok.mp hlast
  cases hend
  cases hlast
  cases hmore
  cases hnb
  obtain rfl := hmul h1
  obtain rfl := hmul h2
  obtain rfl := hmul h3
  exact ⟨rfl, rfl⟩

/-- What a grid says of a plane. -/
structure IsGrid (order : PagedKVPlaneOrder) (pages : Nat) (plane : Plane)
    (grid : Grid) : Prop where
  data : grid.data = plane.data
  pageCount : grid.pages = pages
  size : grid.rows * grid.pitch = plane.nb 3 * plane.ne 3
  belongs : ∀ page address,
    Belongs order plane page address ↔ grid.InPage page.toNat address
  fill : ∀ (first : Int) (count : Nat), first.toNat + count ≤ pages →
    zeroPlane order first count plane = .ok (grid.rectangle first.toNat count)

/-- The elements of a slice of heads and slots, byte by byte. -/
theorem slice_iff {z L S x : Nat} :
    (∃ d < L, ∃ slot < S, ∃ byte < z, x = d * z + slot * (z * L) + byte)
      ↔ x < z * L * S := by
  rw [mul_comm (z * L), ← digits_iff]
  constructor
  · rintro ⟨d, hd, slot, hslot, byte, hbyte, rfl⟩
    refine ⟨slot, hslot, d * z + byte, ?_, by ring⟩
    rw [mul_comm z]
    exact digits_lt hd hbyte
  · rintro ⟨slot, hslot, i, hi, rfl⟩
    rw [mul_comm z] at hi
    obtain ⟨d, hd, byte, hbyte, rfl⟩ := digits_iff.mpr hi
    exact ⟨d, hd, slot, hslot, byte, hbyte, by ring⟩

variable {plane : Plane}

/-- The extents and strides of a plane whose two outer ones are `X` and
`Y`. -/
theorem plane_strides {X Y : Int}
    (h : Tensor.make plane.spec.dtype
      [plane.spec.leadingExtent, pagedKVPageSize, X, Y] = .ok plane.tensor) :
    plane.nb 0 = plane.spec.dtype.size ∧
      plane.nb 1 = plane.spec.dtype.size * plane.spec.leadingExtent.toNat ∧
      plane.nb 2 = plane.nb 1 * pagedKVPageSize ∧
      plane.nb 3 = plane.nb 2 * X.toNat ∧ plane.ne 3 = Y.toNat := by
  obtain ⟨hne, hnb⟩ := make_strides h
  have hpositive := (make_ok h).2.2
  obtain ⟨L, hL⟩ := Int.eq_ofNat_of_zero_le
    (hpositive plane.spec.leadingExtent (by simp)).le
  obtain ⟨N, hN⟩ := Int.eq_ofNat_of_zero_le (hpositive X (by simp)).le
  rw [hL, hN] at hnb
  simp only [Plane.nb, Plane.ne, hne, hnb, hL, hN, getD_cons_zero,
    getD_cons_succ]
  norm_cast

theorem exists_grid {order : PagedKVPlaneOrder} {pages : Nat}
    (h : Tensor.make plane.spec.dtype (plane.spec.shape order pages)
      = .ok plane.tensor) : ∃ grid, IsGrid order pages plane grid := by
  cases order with
  | pageMajor =>
    obtain ⟨h0, h1, h2, h3, hpages⟩ := plane_strides h
    rw [Int.toNat_natCast] at hpages
    refine ⟨{ data := plane.data, rows := 1, pitch := pages * plane.nb 3
              width := plane.nb 3, pages := pages
              room := le_refl _ }, rfl, rfl, ?_, ?_, ?_⟩
    · rw [hpages, one_mul]
      exact mul_comm pages _
    · intro page address
      simp only [Belongs, elementOffset, Grid.InPage, h0, h1, h2, h3]
      constructor
      · rintro ⟨d, hd, slot, hslot, head, hhead, byte, hbyte, rfl⟩
        have hlt := digits_lt hhead
          (slice_iff.mp ⟨d, hd, slot, hslot, byte, hbyte, rfl⟩)
        rw [mul_comm plane.spec.headExtent.toNat] at hlt
        exact ⟨0, Nat.one_pos, _, hlt, by ring⟩
      · rintro ⟨row, hrow, i, hi, rfl⟩
        obtain rfl : row = 0 := by omega
        rw [mul_comm _ plane.spec.headExtent.toNat] at hi
        obtain ⟨head, hhead, x, hx, rfl⟩ := digits_iff.mpr hi
        obtain ⟨d, hd, slot, hslot, byte, hbyte, rfl⟩ := slice_iff.mpr hx
        exact ⟨d, hd, slot, hslot, head, hhead, byte, hbyte, by ring⟩
    · intro first count _
      simp [zeroPlane, Grid.rectangle]
  | headMajor =>
    obtain ⟨h0, h1, h2, h3, hheads⟩ := plane_strides h
    rw [Int.toNat_natCast] at h3
    have hroom : pages * plane.nb 2 ≤ plane.nb 3 := by
      rw [h3, mul_comm]
    refine ⟨{ data := plane.data, rows := plane.ne 3, pitch := plane.nb 3
              width := plane.nb 2, pages := pages
              room := hroom }, rfl, rfl, mul_comm _ _, ?_, ?_⟩
    · intro page address
      simp only [Belongs, elementOffset, Grid.InPage, hheads, h0, h1, h2]
      constructor
      · rintro ⟨d, hd, slot, hslot, head, hhead, byte, hbyte, rfl⟩
        exact ⟨head, hhead, _,
          slice_iff.mp ⟨d, hd, slot, hslot, byte, hbyte, rfl⟩, by ring⟩
      · rintro ⟨head, hhead, i, hi, rfl⟩
        obtain ⟨d, hd, slot, hslot, byte, hbyte, rfl⟩ := slice_iff.mpr hi
        exact ⟨d, hd, slot, hslot, head, hhead, byte, hbyte, by ring⟩
    · intro first count hcount
      have hwidth : count * plane.nb 2 ≤ plane.nb 3 :=
        le_trans (Nat.mul_le_mul_right _ (by omega)) hroom
      rw [zeroPlane, memset2DAsync, if_neg (Nat.not_lt.mpr hwidth)]
      rfl

-- ============ the layout

/-- A planned tensor has the room of its bytes from the cursor on. -/
theorem addTensor_spec {dtype : DType} {shape : List Int} {alignment : Nat}
    {label : String} {s t : Planned} (hs : s.builder.cursor < 2 ^ 64)
    (h : addTensor dtype shape alignment label s = .ok ((), t)) :
    t.builder.cursor < 2 ^ 64 ∧ ∃ region tensor,
      t.regions = s.regions ++ [(label, region)]
        ∧ Tensor.make dtype shape = .ok tensor
        ∧ s.builder.cursor ≤ region.offset
        ∧ region.offset + elements shape * dtype.size = t.builder.cursor := by
  rw [addTensor_eq] at h
  obtain ⟨⟨bytes, s'⟩, hbytes, h⟩ := bind_ok.mp h
  obtain ⟨_, hb, heq⟩ := map_ok.mp hbytes
  cases heq
  obtain ⟨tensor, hmake, -⟩ := bind_ok.mp hb
  obtain ⟨hne, hrank, hpos⟩ := make_ok hmake
  rcases @tensor_bytes shape dtype hne hrank hpos with hsize | ⟨e, he, -⟩
  · obtain rfl := Except.ok.inj (hb.symm.trans hsize)
    obtain ⟨⟨region, builder⟩, hadd, h⟩ := bind_ok.mp h
    cases h
    unfold LayoutBuilder.add at hadd
    obtain ⟨-, hadd⟩ := guard_ok.mp hadd
    obtain ⟨offset, halign, hadd⟩ := bind_ok.mp hadd
    obtain ⟨cursor, hcursor, hadd⟩ := bind_ok.mp hadd
    cases hadd
    have hpower : ∃ k, alignment = 2 ^ k := by
      rw [← isPowerOfTwo_iff]
      by_contra hnot
      unfold alignUp at halign
      rw [if_pos (by simpa using hnot)] at halign
      cases halign
    obtain ⟨k, rfl⟩ := hpower
    obtain ⟨rfl, hlt⟩ := alignUp_ok hs halign
    unfold checkedAdd at hcursor
    obtain ⟨hroom, hcursor⟩ := guard_ok.mp hcursor
    cases hcursor
    exact ⟨show _ + _ < _ by omega, _, tensor, rfl, hmake, le_roundUp _ k, rfl⟩
  · rw [hb] at he
    cases he

theorem plane_bytes (plane : Plane) {order : PagedKVPlaneOrder} {pages : Int}
    (h : Tensor.make plane.spec.dtype (plane.spec.shape order pages)
      = .ok plane.tensor) :
    plane.nb 3 * plane.ne 3
      = elements (plane.spec.shape order pages) * plane.spec.dtype.size := by
  cases order <;>
  · obtain ⟨-, h1, h2, h3, hne⟩ := plane_strides h
    rw [h3, h2, h1, hne]
    simp only [elements, PagedKVPlaneSpec.shape, map_cons, map_nil, prod_cons,
      prod_nil, Int.toNat_natCast]
    ring

/-- Planes bound where they are planned are made as planned, behind the
cursor and apart. -/
theorem planPlanes_spec {order : PagedKVPlaneOrder} {pages : Int}
    (backing : Nat) {t : Planned} :
    ∀ (specs : List PagedKVPlaneSpec) (index : Nat) (s : Planned),
      s.builder.cursor < 2 ^ 64 →
      (specs.zipIdx index).forM (planPlane order pages) s = .ok ((), t) →
      t.builder.cursor < 2 ^ 64 ∧ ∃ regions,
        t.regions = s.regions ++ regions ∧ ∀ more,
        (bindPlanes order pages backing specs (regions ++ more)).Pairwise
          Plane.Apart
        ∧ ∀ plane ∈ bindPlanes order pages backing specs (regions ++ more),
          Tensor.make plane.spec.dtype (plane.spec.shape order pages)
              = .ok plane.tensor
            ∧ backing + s.builder.cursor ≤ plane.data := by
  intro specs
  induction specs with
  | nil =>
    intro index s hs h
    cases h
    exact ⟨hs, [], (append_nil _).symm, fun more => ⟨.nil, nofun⟩⟩
  | cons spec specs ih =>
    intro index s hs h
    obtain ⟨⟨_, s'⟩, hplane, hrest⟩ := bind_ok.mp h
    unfold planPlane refuse at hplane
    dsimp only at hplane
    split at hplane
    · cases hplane
    obtain ⟨hs', region, tensor, hregions, hmake, hoffset, hend⟩ :=
      addTensor_spec hs hplane
    obtain ⟨ht, regions, hmore, hall⟩ := ih (index + 1) s' hs' hrest
    refine ⟨ht, (_, region) :: regions, by rw [hmore, hregions, append_assoc]; rfl,
      fun more => ?_⟩
    obtain ⟨hapart, hmade⟩ := hall more
    rw [cons_append, bindPlanes, hmake]
    dsimp only
    have hbytes := plane_bytes ⟨backing + region.offset, spec, tensor⟩ hmake
    constructor
    · refine pairwise_cons.mpr ⟨fun plane hin => .inl ?_, hapart⟩
      have hdata := (hmade plane hin).2
      rw [hbytes]
      dsimp only
      omega
    · intro plane hin
      rcases mem_cons.mp hin with rfl | hin
      · exact ⟨hmake, by dsimp only; omega⟩
      · obtain ⟨hmake', hdata⟩ := hmade plane hin
        exact ⟨hmake', by omega⟩

/-- The planes of a planned pool are apart and made as planned. -/
theorem planPagedKVPool_planes {spec : Layout.PagedKVPoolSpec} {backing : Nat}
    {before planned : Planned} {planes : List Plane}
    (hcursor : before.builder.cursor < 2 ^ 64)
    (h : planPagedKVPool spec before = .ok ((), planned))
    (hplanes : planes = bindPlanes spec.planeOrder spec.pageGroupCount backing
      spec.planes (planned.regions.drop before.regions.length)) :
    planes.Pairwise Plane.Apart ∧ ∀ plane ∈ planes,
      Tensor.make plane.spec.dtype
        (plane.spec.shape spec.planeOrder spec.pageGroupCount)
        = .ok plane.tensor := by
  unfold planPagedKVPool at h
  obtain ⟨⟨pages, s₁⟩, hpages, h⟩ := bind_ok.mp h
  obtain ⟨n, hn, heq⟩ := map_ok.mp hpages
  cases heq
  unfold checkedPageI32 at hn
  obtain ⟨-, hn⟩ := guard_ok.mp hn
  cases hn
  obtain ⟨⟨logical, s₂⟩, hlogical, h⟩ := bind_ok.mp h
  obtain ⟨_, -, heq⟩ := map_ok.mp hlogical
  cases heq
  unfold refuse at h
  dsimp only at h
  split at h
  · cases h
  split at h
  · cases h
  obtain ⟨⟨_, s₃⟩, hloop, h⟩ := bind_ok.mp h
  obtain ⟨hlt, regions, hregions, hall⟩ :=
    planPlanes_spec backing _ _ _ hcursor hloop
  obtain ⟨-, table, -, htable, -⟩ := addTensor_spec hlt h
  obtain ⟨hapart, hmade⟩ := hall [(_, table)]
  rw [htable, hregions, append_assoc, drop_left] at hplanes
  subst hplanes
  exact ⟨hapart, fun plane hin => (hmade plane hin).1⟩

/-- The pool the constructor binds over a planned layout. -/
def PlanePool.bind (spec : Layout.PagedKVPoolSpec) (backing : Nat)
    {before planned : Planned} (hcursor : before.builder.cursor < 2 ^ 64)
    (h : planPagedKVPool spec before = .ok ((), planned)) : PlanePool where
  planeOrder := spec.planeOrder
  pageGroupCount := spec.pageGroupCount
  planes := bindPlanes spec.planeOrder spec.pageGroupCount backing
    spec.planes (planned.regions.drop before.regions.length)
  made := (planPagedKVPool_planes hcursor h rfl).2
  apart := (planPagedKVPool_planes hcursor h rfl).1

-- ============ the runs

/-- The pages of a run. -/
def runPages (run : Int × Nat) : List Int :=
  (List.range run.2).map fun i => run.1 + (i : Nat)

theorem follow_spec (page : Int) (rest : List Int) :
    (List.range (follow page rest).1).map (fun i : Nat => page + 1 + (i : Int))
      ++ (follow page rest).2 = rest := by
  induction rest generalizing page with
  | nil => rfl
  | cons next rest ih =>
    unfold follow
    by_cases h : next = page + 1
    · subst h
      rw [if_pos rfl]
      dsimp only
      rw [range_succ_eq_map, map_cons, map_map, cons_append]
      congr 1
      · simp
      · refine Eq.trans ?_ (ih (page + 1))
        congr 2
        funext i
        simp only [Function.comp_apply]
        push_cast
        ring
    · rw [if_neg h]
      rfl

/-- The runs are the pages, in order. -/
theorem runs_flatMap (sorted : List Int) :
    (runs sorted).flatMap runPages = sorted := by
  match sorted with
  | [] => simp [runs]
  | page :: rest =>
    have hrest := follow_spec page rest
    rw [runs, flatMap_cons, runs_flatMap (follow page rest).2, runPages]
    dsimp only
    rw [range_succ_eq_map, map_cons, map_map, cons_append]
    congr 1
    · simp
    · refine Eq.trans ?_ hrest
      congr 2
      funext i
      simp only [Function.comp_apply]
      push_cast
      ring
termination_by sorted.length
decreasing_by exact Nat.lt_succ_of_le (length_follow page rest)

variable {page : Int}

theorem mem_runPages {run : Int × Nat} :
    page ∈ runPages run ↔ run.1 ≤ page ∧ page < run.1 + run.2 := by
  simp only [runPages, mem_map, mem_range]
  constructor
  · rintro ⟨i, hi, rfl⟩
    omega
  · rintro ⟨hlow, hhigh⟩
    exact ⟨(page - run.1).toNat, by omega, by omega⟩

theorem runs_pos {sorted : List Int} : ∀ run ∈ runs sorted, 0 < run.2 := by
  match sorted with
  | [] => simp [runs]
  | page :: rest =>
    rw [runs]
    intro run hrun
    rcases mem_cons.mp hrun with rfl | hrun
    · exact Nat.succ_pos _
    · exact runs_pos run hrun
termination_by sorted.length
decreasing_by exact Nat.lt_succ_of_le (length_follow page rest)

/-- Pages are in the order of their runs. -/
theorem mem_runs {sorted : List Int} :
    page ∈ sorted ↔ ∃ run ∈ runs sorted, page ∈ runPages run := by
  conv => lhs; rw [← runs_flatMap sorted]
  exact mem_flatMap

-- ============ the call

variable {pool : PlanePool}

instance : Std.Symm Plane.Apart := ⟨fun _ _ h => h.symm⟩

/-- The grids of the planes of a pool. -/
theorem PlanePool.exists_grids (pool : PlanePool) :
    ∃ grid : Plane → Grid, ∀ plane ∈ pool.planes,
      IsGrid pool.planeOrder pool.pageGroupCount plane (grid plane) := by
  have hgrid : ∀ plane, ∃ grid, plane ∈ pool.planes →
      IsGrid pool.planeOrder pool.pageGroupCount plane grid := by
    intro plane
    by_cases h : plane ∈ pool.planes
    · obtain ⟨grid, hgrid⟩ := exists_grid (pool.made plane h)
      exact ⟨grid, fun _ => hgrid⟩
    · exact ⟨default, fun hin => absurd hin h⟩
  choose grid hgrid using hgrid
  exact ⟨grid, hgrid⟩

/-- The bytes of a page are in its plane. -/
theorem belongs_bounds (hplane : plane ∈ pool.planes)
    {address : Nat} (hpage : 0 ≤ page ∧ page < pool.pageGroupCount)
    (h : Belongs pool.planeOrder plane page address) :
    plane.data ≤ address ∧ address < plane.data + plane.nb 3 * plane.ne 3 := by
  obtain ⟨grid, hgrid⟩ := pool.exists_grids
  have hgrid := hgrid plane hplane
  have hbounds := ((hgrid.belongs page address).mp h).bounds (by
    rw [hgrid.pageCount]
    omega)
  rwa [hgrid.data, hgrid.size] at hbounds

/-- A byte is of one plane and one page. -/
theorem belongs_unique {plane' : Plane} (hplane : plane ∈ pool.planes)
    (hplane' : plane' ∈ pool.planes) {page' : Int} {address : Nat}
    (hpage : 0 ≤ page ∧ page < pool.pageGroupCount)
    (hpage' : 0 ≤ page' ∧ page' < pool.pageGroupCount)
    (h : Belongs pool.planeOrder plane page address)
    (h' : Belongs pool.planeOrder plane' page' address) :
    plane = plane' ∧ page = page' := by
  by_cases hsame : plane = plane'
  · subst hsame
    obtain ⟨grid, hgrid⟩ := pool.exists_grids
    have hgrid := hgrid plane hplane
    have hunique := ((hgrid.belongs page address).mp h).unique
      (by rw [hgrid.pageCount]; omega) (by rw [hgrid.pageCount]; omega)
      ((hgrid.belongs page' address).mp h')
    exact ⟨rfl, by omega⟩
  · have hapart := pool.apart.forall hplane hplane' hsame
    have hbounds := belongs_bounds hplane hpage h
    have hbounds' := belongs_bounds hplane' hpage' h'
    unfold Plane.Apart at hapart
    omega

section

variable {pageIds : List Int}
  (hpages : ∀ page ∈ pageIds, 0 ≤ page ∧ page < pool.pageGroupCount)

include hpages

/-- The runs of a call are in the pool. -/
theorem run_fits {run : Int × Nat}
    (hrun : run ∈ runs (pageIds.mergeSort (· ≤ ·))) :
    0 ≤ run.1 ∧ run.1.toNat + run.2 ≤ pool.pageGroupCount := by
  have hpos := runs_pos run hrun
  have hpage : ∀ page ∈ runPages run,
      0 ≤ page ∧ page < pool.pageGroupCount := fun page hpage =>
    hpages page (mem_mergeSort.mp (mem_runs.mpr ⟨run, hrun, hpage⟩))
  have hfirst := hpage run.1 (mem_runPages.mpr (by omega))
  have hend := hpage (run.1 + (run.2 - 1 : Nat)) (mem_runPages.mpr (by omega))
  omega

/-- The fills of a call are rectangles. -/
theorem zeroPages_eq (hdistinct : pageIds.Nodup) {grid : Plane → Grid}
    (hgrid : ∀ plane ∈ pool.planes,
      IsGrid pool.planeOrder pool.pageGroupCount plane (grid plane)) :
    pool.zeroPages pageIds
      = .ok ((runs (pageIds.mergeSort (· ≤ ·))).flatMap fun run =>
        pool.planes.flatMap fun plane =>
          (grid plane).rectangle run.1.toNat run.2) := by
  by_cases hnil : pageIds = []
  · subst hnil
    rw [PlanePool.zeroPages, if_pos rfl, mergeSort_nil, runs]
    rfl
  · have hmem : ∀ page, page ∈ pageIds.mergeSort (· ≤ ·) ↔ page ∈ pageIds :=
      fun page => mem_mergeSort
    have hnonempty : pageIds.mergeSort (· ≤ ·) ≠ [] := by
      intro hempty
      obtain ⟨page, hpage⟩ := exists_mem_of_ne_nil _ hnil
      rw [← hmem, hempty] at hpage
      cases hpage
    have hhead := hpages _ ((hmem _).mp (head_mem hnonempty))
    have hlast := hpages _ ((hmem _).mp (getLast_mem hnonempty))
    have hchain : (pageIds.mergeSort (· ≤ ·)).IsChain (· ≠ ·) :=
      List.Pairwise.isChain (nodup_mergeSort.mpr hdistinct)
    rw [PlanePool.zeroPages, if_neg hnil]
    dsimp only
    rw [if_neg (by
        rw [headD_eq_head?_getD, head?_eq_some_head hnonempty,
          getLastD_eq_getLast?, getLast?_eq_some_getLast hnonempty]
        simp only [Option.getD_some]
        omega), if_neg (not_not.mpr hchain)]
    have hfill : ∀ run ∈ runs (pageIds.mergeSort (· ≤ ·)),
        pool.planes.mapM (zeroPlane pool.planeOrder run.1 run.2)
          = pure (pool.planes.map fun plane =>
              (grid plane).rectangle run.1.toNat run.2) := by
      intro run hrun
      exact mapM_pure fun plane hplane =>
        (hgrid plane hplane).fill _ _ (run_fits hpages hrun).2
    rw [mapM_pure hfill]
    show Except.ok _ = _
    rw [flatten_flatten, map_map]
    rfl

end

/-- `zero_pages` on distinct pages of the pool. -/
theorem zeroPages_exact (pool : PlanePool) {pageIds : List Int}
    (hdistinct : pageIds.Nodup)
    (hpages : ∀ page ∈ pageIds, 0 ≤ page ∧ page < pool.pageGroupCount) :
    ∃ fill, pool.zeroPages pageIds = .ok fill ∧ (fill.map Prod.fst).Nodup ∧
      (∀ address value, (address, value) ∈ fill ↔
        value = 0 ∧ ∃ plane ∈ pool.planes, ∃ page ∈ pageIds,
          Belongs pool.planeOrder plane page address) ∧
      ∀ plane ∈ pool.planes, ∀ page : Int,
        0 ≤ page ∧ page < pool.pageGroupCount → page ∉ pageIds →
          ∀ address, Belongs pool.planeOrder plane page address →
            address ∉ fill.map Prod.fst := by
  obtain ⟨grid, hgrid⟩ := pool.exists_grids
  have hsorted : ∀ {page}, (∃ run ∈ runs (pageIds.mergeSort (· ≤ ·)),
      page ∈ runPages run) ↔ page ∈ pageIds := by
    intro page
    rw [← mem_runs]
    exact mem_mergeSort
  -- A rectangle is the bytes of the pages of its run.
  have hrectangle : ∀ run ∈ runs (pageIds.mergeSort (· ≤ ·)),
      ∀ plane ∈ pool.planes, ∀ store : Nat × UInt8,
        store ∈ (grid plane).rectangle run.1.toNat run.2 ↔
          store.2 = 0 ∧ ∃ page ∈ runPages run,
            Belongs pool.planeOrder plane page store.1 := by
    intro run hrun plane hplane store
    have hfits := run_fits hpages hrun
    rw [Grid.mem_rectangle]
    refine and_congr_right fun _ => ⟨?_, ?_⟩
    · rintro ⟨page, hlow, hhigh, hin⟩
      exact ⟨page, mem_runPages.mpr (by omega),
        ((hgrid plane hplane).belongs _ _).mpr hin⟩
    · rintro ⟨page, hpage, hin⟩
      have hrange := mem_runPages.mp hpage
      exact ⟨page.toNat, by omega, by omega,
        ((hgrid plane hplane).belongs _ _).mp hin⟩
  have hmem : ∀ store : Nat × UInt8,
      store ∈ ((runs (pageIds.mergeSort (· ≤ ·))).flatMap fun run =>
        pool.planes.flatMap fun plane =>
          (grid plane).rectangle run.1.toNat run.2) ↔
        store.2 = 0 ∧ ∃ plane ∈ pool.planes, ∃ page ∈ pageIds,
          Belongs pool.planeOrder plane page store.1 := by
    intro store
    simp only [mem_flatMap]
    constructor
    · rintro ⟨run, hrun, plane, hplane, hstore⟩
      obtain ⟨hzero, page, hpage, hin⟩ :=
        (hrectangle run hrun plane hplane store).mp hstore
      exact ⟨hzero, plane, hplane, page, hsorted.mp ⟨run, hrun, hpage⟩, hin⟩
    · rintro ⟨hzero, plane, hplane, page, hpage, hin⟩
      obtain ⟨run, hrun, hpage⟩ := hsorted.mpr hpage
      exact ⟨run, hrun, plane, hplane,
        (hrectangle run hrun plane hplane store).mpr ⟨hzero, page, hpage, hin⟩⟩
  refine ⟨_, zeroPages_eq hpages hdistinct hgrid, ?_,
    fun address value => hmem (address, value), ?_⟩
  · -- Two rectangles that meet are of one plane and one run.
    have hpageOf : ∀ {run}, run ∈ runs (pageIds.mergeSort (· ≤ ·)) →
        ∀ {plane}, plane ∈ pool.planes → ∀ {address},
          address ∈ ((grid plane).rectangle run.1.toNat run.2).map Prod.fst →
            ∃ page ∈ runPages run, (0 ≤ page ∧ page < pool.pageGroupCount) ∧
              Belongs pool.planeOrder plane page address := by
      intro run hrun plane hplane address h
      obtain ⟨store, hstore, rfl⟩ := mem_map.mp h
      obtain ⟨-, page, hpage, hin⟩ :=
        (hrectangle run hrun plane hplane store).mp hstore
      exact ⟨page, hpage, hpages page (hsorted.mp ⟨run, hrun, hpage⟩), hin⟩
    have hruns : (pageIds.mergeSort (· ≤ ·)).Nodup :=
      nodup_mergeSort.mpr hdistinct
    rw [← runs_flatMap (pageIds.mergeSort _), nodup_flatMap] at hruns
    rw [map_flatMap, nodup_flatMap]
    refine ⟨fun run hrun => ?_, hruns.2.imp_of_mem ?_⟩
    · rw [map_flatMap, nodup_flatMap]
      refine ⟨fun plane hplane => Grid.rectangle_nodup ?_,
        pool.apart.imp_of_mem ?_⟩
      · rw [(hgrid plane hplane).pageCount]
        exact (run_fits hpages hrun).2
      · intro plane plane' hplane hplane' hapart address h h'
        obtain ⟨page, -, hrange, hin⟩ := hpageOf hrun hplane h
        obtain ⟨page', -, hrange', hin'⟩ := hpageOf hrun hplane' h'
        have hbounds := belongs_bounds hplane hrange hin
        have hbounds' := belongs_bounds hplane' hrange' hin'
        unfold Plane.Apart at hapart
        omega
    · intro run run' hrun hrun' hdisjoint address h h'
      dsimp only at h h'
      rw [map_flatMap, mem_flatMap] at h h'
      obtain ⟨plane, hplane, h⟩ := h
      obtain ⟨plane', hplane', h'⟩ := h'
      obtain ⟨page, hpage, hrange, hin⟩ := hpageOf hrun hplane h
      obtain ⟨page', hpage', hrange', hin'⟩ := hpageOf hrun' hplane' h'
      obtain ⟨-, rfl⟩ := belongs_unique hplane hplane' hrange hrange' hin hin'
      exact hdisjoint hpage hpage'
  · intro plane hplane page hpage hout address hin hstores
    obtain ⟨store, hstore, rfl⟩ := mem_map.mp hstores
    obtain ⟨-, plane', hplane', page', hpage', hin'⟩ := (hmem store).mp hstore
    obtain ⟨-, rfl⟩ := belongs_unique hplane hplane' hpage
      (hpages page' hpage') hin hin'
    exact hout hpage'

/-- A plane of four pages and two heads. -/
def smallPlane (data : Nat) : Plane :=
  ⟨data, ⟨.bf16, 1, 2, 256⟩, ⟨.bf16, [1, 64, 4, 2], [2, 2, 128, 512]⟩⟩

theorem zeroPages_exact_small :
    ∃ pool : PlanePool, pool.planeOrder = .headMajor ∧
      pool.planes = [smallPlane 0, smallPlane 1024] ∧
      ∃ fill, pool.zeroPages [3, 0, 2] = .ok fill ∧
        (fill.map Prod.fst).Nodup := by
  have hmade : ∀ plane ∈ [smallPlane 0, smallPlane 1024],
      Tensor.make plane.spec.dtype (plane.spec.shape .headMajor (4 : Nat))
        = .ok plane.tensor := by decide
  obtain ⟨fill, hfill, hnodup, -⟩ := zeroPages_exact
    ⟨.headMajor, 4, [smallPlane 0, smallPlane 1024], hmade,
      pairwise_pair.mpr (Or.inl (by decide))⟩
    (show ([3, 0, 2] : List Int).Nodup by decide) (by simp)
  exact ⟨_, rfl, rfl, fill, hfill, hnodup⟩

end Ginfer.Pool.ZeroPages
