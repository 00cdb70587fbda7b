/-
The small-column Q5 product is the whole product.

Before slab `s` the groups that no wait has covered are those of the
slabs `s, …, s + prefetch - 1`, empty past the last one (`group`). An
iteration adds the next and waits for the first, so its buffer has landed,
and the slabs still in flight have other buffers (`slabStep_eq`).

A lane's sum is then over positions of the row: the slabs give the
positions below `1024 * fullSlabs`, the tail those from there to the end
of the last group, masked at `k` (`lanes_eq`).
-/
import Ginfer.Lib.Lists
import Ginfer.Lib.PrefixSums
import Ginfer.Ops.Proofs.RowSplitDecode
import Ginfer.Ops.Q5GemmSimt

namespace Ginfer.Ops.Q5Simt

open Ginfer.Lib List
open Ginfer.Ops.RowSplit
open Ginfer.Ops.Warp

variable (l : Launch) (o : Operands)

-- ============ the decodes

/-- The planes as the readers' weight. -/
def Operands.rows : Weight := ⟨o.codes, o.high, o.scales, l.n, l.k, l.paddedK⟩

/-- A weight by its group and its place there. -/
theorem weight_group (row g : Nat) {item : Nat} (hitem : item < 64) :
    weight l o row (g * 64 + item)
      = o.value (.ofInt ((o.rows l).code5 (row * l.groupsPadded + g) item)
        ((o.rows l).scaleWord (row * l.groupsPadded + g))) := by
  have hgroup : (g * 64 + item) / 64 = g := by omega
  have hplace : (g * 64 + item) % 64 = item := by omega
  simp only [weight, hgroup, hplace, q5ScalarPair]
  exact congrArg o.value (pick_q5Pair (o.rows l) _ item _)

theorem pipeCopies_eq (plane : Plane) (source : Nat) {lanes size byte : Nat}
    (hbyte : byte < lanes * size) :
    pipeCopies plane source lanes size byte = plane (source + byte) := by
  have hlane : byte / size < lanes :=
    Nat.div_lt_of_lt_mul (mul_comm lanes size ▸ hbyte)
  have hsplit := Nat.div_add_mod' byte size
  simp only [pipeCopies]
  rw [if_pos hlane, add_assoc, hsplit]

/-- A lane decodes its eight weights of a phase. -/
theorem dequantChunk_eq (row slab : Nat) {c lane item : Nat} (hc : c < 4)
    (hlane : lane < 32) (hitem : item < 8) :
    o.value (dequantChunk (stagedSlab l o row slab) c lane item)
      = weight l o row (slab * 1024 + c * 256 + lane * 8 + item) := by
  have hposition : slab * 1024 + c * 256 + lane * 8 + item
      = (slab * 16 + c * 4 + lane / 8) * 64 + (lane % 8 * 8 + item) := by omega
  have hshift : lane >>> 3 = lane / 8 := Nat.shiftRight_eq_div_pow lane 3
  have hword : loadU32 (stagedSlab l o row slab).nibbles ((c * 32 + lane) * 4)
      = loadU32 o.codes ((row * l.groupsPadded + (slab * 16 + c * 4 + lane / 8)) * 32
        + lane % 8 * 4) := by
    have hsource : row * l.groupsPadded * 32 + slab * (32 * 16) + (c * 32 + lane) * 4
        = (row * l.groupsPadded + (slab * 16 + c * 4 + lane / 8)) * 32
          + lane % 8 * 4 := by omega
    rw [← hsource, loadU32, loadU32, loadU16, loadU16, loadU16, loadU16]
    simp only [stagedSlab, add_assoc]
    iterate 4 rw [pipeCopies_eq _ _ (by omega)]
    simp only [add_assoc]
  have hbyte : (stagedSlab l o row slab).high (c * 32 + lane)
      = o.high ((row * l.groupsPadded + (slab * 16 + c * 4 + lane / 8)) * 8
        + lane % 8) := by
    simp only [stagedSlab]
    rw [pipeCopies_eq _ _ (by omega)]
    exact congrArg o.high (by omega)
  have hscale : loadU16 (stagedSlab l o row slab).scales ((c * 4 + lane / 8) * 2)
      = loadU16 o.scales ((row * l.groupsPadded + (slab * 16 + c * 4 + lane / 8)) * 2) := by
    have hsource : row * l.groupsPadded * 2 + slab * (8 * 4) + (c * 4 + lane / 8) * 2
        = (row * l.groupsPadded + (slab * 16 + c * 4 + lane / 8)) * 2 := by omega
    rw [← hsource, loadU16, loadU16]
    simp only [stagedSlab]
    iterate 2 rw [pipeCopies_eq _ _ (by omega)]
    rw [add_assoc _ _ 1]
  rw [hposition, weight_group _ _ _ _ (by omega), ← q5LoadEight_eq _ _ _ hitem,
    dequantChunk, hshift, hword, hbyte, hscale]
  rfl

-- ============ the ring

/-- The commit group of slab `j`, empty past the last slab. -/
def group (row j : Nat) : Option (Nat × Slab) :=
  if j < l.fullSlabs then some (j % l.stages, stagedSlab l o row j) else none

theorem fetchSlab_pending (row : Nat) (r : Ring) {fetch buf : Nat}
    (hbuf : buf = fetch % l.stages) :
    (fetchSlab l o row r fetch buf).pending = r.pending ++ [group l o row fetch] := by
  rw [fetchSlab, group, hbuf]
  split <;> rfl

theorem prologue_pending (row : Nat) {p : Nat} (hp : p ≤ l.prefetch) :
    ((List.range p).foldl (fun ring p => fetchSlab l o row ring p p)
        ⟨fun _ => none, []⟩).pending
      = (List.range p).map (group l o row) := by
  induction p with
  | zero => rfl
  | succ p ih =>
    have hstages : p < l.stages := by
      rw [Launch.prefetch] at hp
      omega
    rw [range_succ, foldl_append, foldl_cons, foldl_nil,
      fetchSlab_pending l o row _ (Nat.mod_eq_of_lt hstages).symm, ih (by omega),
      map_append, map_singleton]

/-- A wait for all groups but those behind the first. -/
theorem Ring.wait_cons {r : Ring} {g : Option (Nat × Slab)}
    {rest : List (Option (Nat × Slab))} {groups : Nat} (h : r.pending = g :: rest)
    (hgroups : rest.length = groups) : r.wait groups = ⟨Ring.land r.buffers g, rest⟩ := by
  have hone : (g :: rest).length - groups = 1 := by
    rw [length_cons]
    omega
  rw [Ring.wait, h, hone]
  rfl

/-- The slab an iteration reads has landed, and no copy into its buffer is
in flight. -/
theorem slabStep_eq (row col0 ncols : Nat) {s : Nat} (hs : s < l.fullSlabs)
    (state : Ring × Accumulators)
    (hpending : state.1.pending
      = (List.range l.prefetch).map fun i => group l o row (s + i)) :
    ∃ ring, slabStep l o row col0 ncols state s
        = some (ring, consumeSlab l o col0 ncols s (stagedSlab l o row s) state.2)
      ∧ ring.pending = (List.range l.prefetch).map fun i => group l o row (s + 1 + i) := by
  have hfetched : (fetchSlab l o row state.1 (s + l.prefetch)
      ((s + l.prefetch) % l.stages)).pending
        = group l o row s
          :: (range l.prefetch).map fun i => group l o row (s + 1 + i) := by
    calc _ = (range (l.prefetch + 1)).map fun i => group l o row (s + i) := by
          rw [fetchSlab_pending l o row _ rfl, hpending, range_succ, map_append,
            map_singleton]
      _ = _ := by
          rw [range_succ_eq_map, map_cons, map_map]
          refine congrArg _ (map_congr_left fun i _ => ?_)
          rw [Function.comp, add_assoc s 1, add_comm 1]
  have hwait := Ring.wait_cons hfetched (by rw [length_map, length_range])
  have hclear : ¬ ∃ g ∈ (range l.prefetch).map (fun i => group l o row (s + 1 + i)),
      g.map Prod.fst = some (s % l.stages) := by
    rintro ⟨g, hg, hsame⟩
    obtain ⟨i, hi, rfl⟩ := mem_map.1 hg
    have hi : i + 1 < l.stages := by
      rw [mem_range, Launch.prefetch] at hi
      omega
    rw [group] at hsame
    split at hsame
    · -- Two slabs less than `stages` apart have different buffers.
      have hmod := Nat.sub_mod_eq_zero_of_mod_eq (Option.some.inj hsame)
      rw [add_assoc, Nat.add_sub_cancel_left, add_comm 1, Nat.mod_eq_of_lt hi]
        at hmod
      omega
    · cases hsame
  have hread : ((fetchSlab l o row state.1 (s + l.prefetch)
      ((s + l.prefetch) % l.stages)).wait l.prefetch).read (s % l.stages)
        = some (stagedSlab l o row s) := by
    rw [hwait, Ring.read, if_neg hclear, group, if_pos hs]
    exact Function.update_self ..
  refine ⟨_, ?_, congrArg Ring.pending hwait⟩
  simp only [slabStep, hread]
  rfl

/-- The slab loop runs, and consumes each slab. -/
theorem slabs_run (row col0 ncols : Nat) {s : Nat} (hs : s ≤ l.fullSlabs) :
    ∃ ring, (List.range s).foldlM (slabStep l o row col0 ncols)
        ((List.range l.prefetch).foldl (fun ring p => fetchSlab l o row ring p p)
        ⟨fun _ => none, []⟩, fun _ _ => 0)
        = some (ring, (List.range s).foldl
        (fun acc s => consumeSlab l o col0 ncols s (stagedSlab l o row s) acc)
        fun _ _ => 0)
      ∧ ring.pending = (List.range l.prefetch).map fun i => group l o row (s + i) := by
  induction s with
  | zero =>
    refine ⟨_, rfl, ?_⟩
    simp only [zero_add]
    exact prologue_pending l o row (le_refl _)
  | succ s ih =>
    obtain ⟨ring, hrun, hpending⟩ := ih (by omega)
    obtain ⟨ring', hstep, hpending'⟩ := slabStep_eq l o row col0 ncols (by omega)
      (ring, (range s).foldl
        (fun acc s => consumeSlab l o col0 ncols s (stagedSlab l o row s) acc)
        fun _ _ => 0) hpending
    refine ⟨ring', ?_, hpending'⟩
    rw [range_succ, foldlM_append, hrun, Option.bind_eq_bind, Option.bind_some,
      foldlM_cons, hstep, foldl_append]
    rfl

-- ============ the sums

/-- The term of a position of the row. -/
def term (row col position : Nat) : ℚ :=
  weight l o row position * o.x (col * l.k + position)

/-- Masked at the end of the row. -/
def masked (row col position : Nat) : ℚ :=
  if position < l.k then term l o row col position else 0

theorem consumeSlab_adds (row col0 s : Nat) {ncols lane tt : Nat} (hlane : lane < 32)
    (htt : tt < ncols) (acc : Accumulators) :
    consumeSlab l o col0 ncols s (stagedSlab l o row s) acc lane tt
      = acc lane tt + ∑ c ∈ Finset.range 4, ∑ item ∈ Finset.range 8,
        term l o row (col0 + tt) (((s * 4 + c) * 32 + lane) * 8 + item) := by
  rw [consumeSlab, if_pos htt]
  refine foldl_adds id (fun a c hc => foldl_adds id (fun a item hitem => ?_) a) _
  have hposition : ((s * 4 + c) * 32 + lane) * 8 + item
      = s * 1024 + c * 256 + lane * 8 + item := by omega
  have hx : col0 * l.k + tt * l.k + (s * 1024 + c * 256 + lane * 8) + item
      = (col0 + tt) * l.k + (s * 1024 + c * 256 + lane * 8 + item) := by
    rw [add_mul, add_assoc _ _ item]
  rw [dequantChunk_eq l o row s hc hlane hitem, term, hposition, hx]
  exact add_comm _ _

theorem tailStep_adds (row col0 g : Nat) {ncols lane tt : Nat} (hlane : lane < 32)
    (htt : tt < ncols) (acc : Accumulators) :
    tailStep l o row col0 ncols acc g lane tt
      = acc lane tt + (masked l o row (col0 + tt) (2 * (g * 32 + lane))
        + masked l o row (col0 + tt) (2 * (g * 32 + lane) + 1)) := by
  have hkk : 2 * (g * 32 + lane) = g * 64 + lane * 2 := by omega
  have hx : col0 * l.k + (tt * l.k + (g * 64 + lane * 2))
      = (col0 + tt) * l.k + (g * 64 + lane * 2) := by
    rw [add_mul, add_assoc]
  have hpair : ∀ side < 2, weight l o row (g * 64 + (lane * 2 + side))
      = o.value (pick (q5ScalarPair o.codes o.high o.scales
        (row * l.groupsPadded + g) lane) side) := by
    intro side hside
    have hgroup : (g * 64 + (lane * 2 + side)) / 64 = g := by omega
    have hplace : (g * 64 + (lane * 2 + side)) % 64 / 2 = lane := by omega
    have hparity : (g * 64 + (lane * 2 + side)) % 64 % 2 = side % 2 := by omega
    simp only [weight, hgroup, hplace, pick, hparity]
  have hlow : weight l o row (g * 64 + lane * 2) = o.value (q5ScalarPair o.codes o.high
    o.scales (row * l.groupsPadded + g) lane).1 := hpair 0 (by decide)
  have hhigh : weight l o row (g * 64 + lane * 2 + 1) = o.value (q5ScalarPair o.codes o.high
    o.scales (row * l.groupsPadded + g) lane).2 := hpair 1 (by decide)
  rw [hkk, masked, masked]
  by_cases hend : l.k ≤ g * 64 + lane * 2
  · rw [if_neg (by omega), if_neg (by omega), tailStep, if_pos hend, add_zero, add_zero]
  · have hin : g * 64 + lane * 2 < l.k := by omega
    simp only [tailStep, if_neg hend, if_pos htt, hx, if_pos hin, term, hlow, hhigh]
    split
    · rw [add_assoc]
      ring
    · ring

/-- Lanes, slabs, phases and items are the positions of the slabs. -/
theorem sum_slabs (f : Nat → ℚ) (n : Nat) :
    ∑ lane ∈ Finset.range 32, ∑ s ∈ Finset.range n, ∑ c ∈ Finset.range 4,
        ∑ item ∈ Finset.range 8, f (((s * 4 + c) * 32 + lane) * 8 + item)
      = ∑ position ∈ Finset.range (n * 1024), f position := by
  have hinner (s : Nat) : ∑ lane ∈ Finset.range 32, ∑ c ∈ Finset.range 4,
        ∑ item ∈ Finset.range 8, f (((s * 4 + c) * 32 + lane) * 8 + item)
      = ∑ c ∈ Finset.range 4, ∑ lane ∈ Finset.range 32,
        ∑ item ∈ Finset.range 8, f (((s * 4 + c) * 32 + lane) * 8 + item) :=
    Finset.sum_comm
  rw [Finset.sum_comm, Finset.sum_congr rfl fun s _ => hinner s,
    sum_range_blocks (fun i => ∑ lane ∈ Finset.range 32, ∑ item ∈ Finset.range 8,
      f ((i * 32 + lane) * 8 + item)),
    sum_range_blocks (fun i => ∑ item ∈ Finset.range 8, f (i * 8 + item)),
    sum_range_blocks, Nat.mul_assoc, Nat.mul_assoc]

/-- Lanes, groups and pairs are the positions from the first group on. -/
theorem sum_tail (f : Nat → ℚ) (g0 n : Nat) :
    ∑ lane ∈ Finset.range 32, ∑ i ∈ Finset.range n,
        (f (2 * ((g0 + i) * 32 + lane)) + f (2 * ((g0 + i) * 32 + lane) + 1))
      = ∑ j ∈ Finset.range (n * 64), f (g0 * 64 + j) := by
  have hplace (i lane : Nat) : 2 * ((g0 + i) * 32 + lane)
      = g0 * 64 + 2 * (i * 32 + lane) := by omega
  simp only [hplace, add_assoc (g0 * 64)]
  rw [Finset.sum_comm,
    sum_range_blocks (fun i => f (g0 * 64 + 2 * i) + f (g0 * 64 + (2 * i + 1))),
    sum_range_pairs (fun j => f (g0 * 64 + j))]
  exact congrArg (fun m => ∑ j ∈ Finset.range m, f (g0 * 64 + j)) (by omega)

/-- A warp's lanes together hold the row of the product. -/
theorem lanes_eq (row col0 : Nat) {ncols tt : Nat} (htt : tt < ncols) :
    warpReduceSum (fun lane =>
        (List.range ((l.k + 63) / 64 - l.fullSlabs * 1024 / 64)).foldl
        (fun acc i => tailStep l o row col0 ncols acc (l.fullSlabs * 1024 / 64 + i))
        ((List.range l.fullSlabs).foldl
          (fun acc s => consumeSlab l o col0 ncols s (stagedSlab l o row s) acc)
          fun _ _ => 0) lane tt) 0
      = product l o row (col0 + tt) := by
  have hslabs : l.fullSlabs * 1024 ≤ l.k := by
    obtain h | ⟨-, h⟩ := l.slabs
    · omega
    · omega
  have hstart : l.fullSlabs * 1024 / 64 = l.fullSlabs * 16 := by omega
  have hlane (lane : Nat) (hlane : lane ∈ Finset.range 32) := by
    have hlane := Finset.mem_range.1 hlane
    exact (foldl_adds (n := (l.k + 63) / 64 - l.fullSlabs * 1024 / 64)
      (fun acc : Accumulators => acc lane tt) (fun acc i _ =>
        tailStep_adds l o row col0 (l.fullSlabs * 1024 / 64 + i) hlane htt acc) _).trans
      (congrArg (· + _) (foldl_adds (n := l.fullSlabs)
        (fun acc : Accumulators => acc lane tt)
        (fun acc s _ => consumeSlab_adds l o row col0 s hlane htt acc) fun _ _ => 0))
  have hends : l.fullSlabs * 1024 + ((l.k + 63) / 64 - l.fullSlabs * 1024 / 64) * 64
      = l.k + ((l.k + 63) / 64 * 64 - l.k) := by omega
  have hfirst : ∑ position ∈ Finset.range (l.fullSlabs * 1024),
        term l o row (col0 + tt) position
      = ∑ position ∈ Finset.range (l.fullSlabs * 1024),
        masked l o row (col0 + tt) position :=
    Finset.sum_congr rfl fun position hposition =>
      (if_pos (lt_of_lt_of_le (Finset.mem_range.1 hposition) hslabs)).symm
  have hinside : ∑ position ∈ Finset.range l.k, masked l o row (col0 + tt) position
      = product l o row (col0 + tt) :=
    Finset.sum_congr rfl fun position hposition => if_pos (Finset.mem_range.1 hposition)
  have hbehind : ∑ j ∈ Finset.range ((l.k + 63) / 64 * 64 - l.k),
      masked l o row (col0 + tt) (l.k + j) = 0 :=
    Finset.sum_eq_zero fun j _ => if_neg (by omega)
  have hgroups : l.fullSlabs * 1024 / 64 * 64 = l.fullSlabs * 1024 := by omega
  rw [warpReduceSum_zero, Finset.sum_congr rfl hlane, Finset.sum_add_distrib,
    Finset.sum_add_distrib, Finset.sum_const_zero, zero_add, sum_slabs, sum_tail, hfirst,
    hgroups, ← Finset.sum_range_add, hends, Finset.sum_range_add, hinside, hbehind, add_zero]

-- ============ the grid

/-- The store of an element of the product. -/
def productStore (row col : Nat) : Store :=
  ⟨(outCell l row col).1, (outCell l row col).2, product l o row col⟩

theorem warpStores_eq {row : Nat} (hrow : row < l.n) (tile : Nat) :
    warpStores l o row tile
      = some ((List.range (min (l.t - tile * l.columnTile) l.columnTile)).map
        (productStore l o row ∘ (tile * l.columnTile + ·))) := by
  obtain ⟨ring, hrun, -⟩ := slabs_run l o row (tile * l.columnTile)
    (min l.columnTile (l.t - tile * l.columnTile)) (le_refl l.fullSlabs)
  simp only [warpStores, if_neg (Nat.not_le.2 hrow), hrun, Option.bind_eq_bind,
    Option.bind_some]
  refine congrArg some ?_
  rw [min_comm (l.t - _), ← filterMap_eq_map,
    ← filterMap_range_lt (min_le_left l.columnTile _)]
  refine filterMap_congr fun tt _ => ?_
  by_cases htt : tt < min l.columnTile (l.t - tile * l.columnTile)
  · rw [if_neg (Nat.not_le.2 htt), if_pos htt, lanes_eq l o row _ htt]
    rfl
  · rw [if_pos (Nat.not_lt.1 htt), if_neg htt]

/-- The tiles of a row are its columns. -/
theorem rowStores_eq (row : Nat) :
    (do
      let stores ← (List.range ((l.t + l.columnTile - 1) / l.columnTile)).mapM
        (warpStores l o row)
      pure stores.flatten)
      = some (if row < l.n then (List.range l.t).map (productStore l o row) else []) := by
  by_cases hrow : row < l.n
  · have htiles : (range ((l.t + l.columnTile - 1) / l.columnTile)).mapM
        (warpStores l o row) = some _ :=
      mapM_pure fun tile _ => warpStores_eq l o hrow tile
    rw [htiles, if_pos hrow, ← tiles_eq_range l.t l.tiles.1, map_flatMap]
    simp only [map_map]
    rfl
  · have htiles : (range ((l.t + l.columnTile - 1) / l.columnTile)).mapM
        (warpStores l o row) = some (map (fun _ => []) _) :=
      mapM_pure fun tile _ => by
        rw [warpStores, if_pos (Nat.not_lt.1 hrow)]
    rw [htiles, if_neg hrow]
    exact congrArg some (flatten_eq_nil_iff.2 fun stores hstores => by
      obtain ⟨tile, -, rfl⟩ := mem_map.1 hstores
      rfl)

/-- The stores of the grid: row by row, every column. -/
theorem gridStores_eq :
    gridStores l o = some ((List.range l.n).flatMap fun row =>
      (List.range l.t).map (productStore l o row)) := by
  obtain ⟨behind, hbehind⟩ : ∃ behind, (l.n + l.rowsPerBlock - 1) / l.rowsPerBlock
      * l.rowsPerBlock = l.n + behind := by
    have hlt := Nat.lt_div_mul_add l.tiles.2 (a := l.n + l.rowsPerBlock - 1)
    exact ⟨_, (Nat.add_sub_cancel' (by omega)).symm⟩
  have hrows : (range (l.n + behind)).mapM _ = some _ :=
    mapM_pure fun row _ => rowStores_eq l o row
  simp only [gridStores, flatMap_rows, hbehind]
  rw [hrows]
  refine congrArg some ?_
  rw [← flatMap_def, range_add, flatMap_append]
  have hinside : (range l.n).flatMap (fun row => if row < l.n then
        (range l.t).map (productStore l o row) else [])
      = (range l.n).flatMap fun row => (range l.t).map (productStore l o row) :=
    flatMap_congr fun row hrow => if_pos (mem_range.1 hrow)
  have houtside : ((range behind).map (l.n + ·)).flatMap (fun row =>
      if row < l.n then (range l.t).map (productStore l o row) else []) = [] := by
    rw [flatMap_eq_nil_iff]
    intro row hrow
    obtain ⟨i, -, rfl⟩ := mem_map.1 hrow
    exact if_neg (Nat.not_lt.2 (Nat.le_add_right l.n i))
  rw [hinside, houtside, append_nil]

/-- Elements of the product have cells of their own. -/
theorem outCell_injOn :
    Set.InjOn (fun p : Nat × Nat => outCell l p.1 p.2) (Set.Iio l.n ×ˢ Set.Iio l.t) := by
  rintro ⟨row, col⟩ ⟨hrow, -⟩ ⟨row', col'⟩ ⟨hrow', -⟩ h
  have hroom := l.room
  rw [Set.mem_Iio] at hrow hrow'
  simp only [outCell] at h
  cases hsplit : l.split with
  | none =>
    rw [hsplit, Option.getD_none, Nat.min_self] at hroom
    rw [hsplit] at h
    obtain ⟨rfl, rfl⟩ := digits_inj (a := col) (by omega) (by omega) (Prod.mk.inj h).2
    rfl
  | some splitRow =>
    rw [hsplit, Option.getD_some] at hroom
    simp only [hsplit] at h
    split at h <;> split at h
    · obtain ⟨rfl, rfl⟩ := digits_inj (a := col) (by omega) (by omega) (Prod.mk.inj h).2
      rfl
    · cases (Prod.mk.inj h).1
    · cases (Prod.mk.inj h).1
    · have hflat : col * (l.n - splitRow) + (row - splitRow)
          = col' * (l.n - splitRow) + (row' - splitRow) := by
        have := (Prod.mk.inj h).2
        omega
      obtain ⟨rfl, hrows⟩ := digits_inj (by omega) (by omega) hflat
      rw [Prod.mk.injEq]
      omega

/-- The kernel never reads a buffer whose copies are not complete; it
stores every element of the product once, in a cell of its own. -/
theorem gemm_exact :
    gridStores l o = some ((List.range l.n).flatMap fun row =>
        (List.range l.t).map fun col =>
          ⟨(outCell l row col).1, (outCell l row col).2, product l o row col⟩)
      ∧ Set.InjOn (fun p : Nat × Nat => outCell l p.1 p.2)
        (Set.Iio l.n ×ˢ Set.Iio l.t) :=
  ⟨gridStores_eq l o, outCell_injOn l⟩

/-- `launch_q5_simt_r8_c4`: two slabs and a tail, two blocks of rows. -/
def simtR8C4 : Launch where
  n := 10
  k := 2056
  t := 3
  columnTile := 4
  rowsPerBlock := 8
  stages := 2
  split := none
  outLd := 10
  paddedK := 2176
  fullSlabs := 2
  sizes := by decide
  tiles := by decide
  pipeline := by decide
  seam := by decide
  room := by decide
  padded := by decide
  slabs := by decide

def byteOperands : Operands where
  x := fun place => place - 7
  codes := fun byte => UInt8.ofNat (3 * byte)
  high := fun byte => UInt8.ofNat (5 * byte)
  scales := fun byte => UInt8.ofNat byte
  half := fun word => word / 1024

theorem gemm_exact_r8_c4 :
    gridStores simtR8C4 byteOperands = some ((List.range 10).flatMap fun row =>
      (List.range 3).map fun col =>
        ⟨false, col * 10 + row, product simtR8C4 byteOperands row col⟩) :=
  (gemm_exact simtR8C4 byteOperands).1

end Ginfer.Ops.Q5Simt
