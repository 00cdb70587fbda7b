/-
The packed columns are a permutation, and the route jobs cover them.

In the end an assignment's column has three digits: its expert, among the
columns of the expert its tile, and in the tile its rank. The first two
are blocks of prefix sums (Lib/PrefixSums), the last is what the tile's
counters hand out in whatever order they are incremented (`Ranked`). So
no column is taken twice, and as many are taken as there are.

`Slice.routed` puts it together: the selection, the permutation, the
experts' ranges and the jobs.
-/
import Ginfer.Ops.Proofs.ExpertSelection

namespace Ginfer.Ops.SparseMoe

open Ginfer.Lib List

-- ============ the counters

/-- The counters after the increments of `done`. -/
structure Ranked (ids : Nat → Nat) (done : List Nat) (c : RankCounters) :
    Prop where
  counts : ∀ expert, c.counts expert = done.countP (ids · = expert)
  lt : ∀ a ∈ done, c.localRank a < c.counts (ids a)
  inj : ∀ a ∈ done, ∀ b ∈ done, ids a = ids b →
    c.localRank a = c.localRank b → a = b

/-- One increment. -/
theorem Ranked.atomicAdd {ids : Nat → Nat} {done : List Nat}
    {c : RankCounters} (h : Ranked ids done c) {a : Nat} (ha : a ∉ done) :
    Ranked ids (done ++ [a]) (c.atomicAdd ids a) := by
  have hother : ∀ b ∈ done,
      (c.atomicAdd ids a).localRank b = c.localRank b := by
    intro b hb
    have hne : b ≠ a := fun hsame => ha (hsame ▸ hb)
    exact Function.update_of_ne hne _ _
  have hself : (c.atomicAdd ids a).localRank a = c.counts (ids a) :=
    Function.update_self _ _ _
  have hsame : (c.atomicAdd ids a).counts (ids a) = c.counts (ids a) + 1 :=
    Function.update_self _ _ _
  have hcounts : ∀ expert, expert ≠ ids a →
      (c.atomicAdd ids a).counts expert = c.counts expert :=
    fun _ hne => Function.update_of_ne hne _ _
  -- An earlier assignment's rank is below the counter it met.
  have hbelow : ∀ b ∈ done, ids b = ids a →
      c.localRank b < c.counts (ids a) := by
    intro b hb hids
    rw [← hids]
    exact h.lt b hb
  constructor
  · intro expert
    rw [countP_append, countP_singleton, ← h.counts]
    by_cases hexpert : expert = ids a
    · rw [hexpert, hsame]
      simp
    · rw [hcounts expert hexpert]
      simp [Ne.symm hexpert]
  · intro b hb
    rw [mem_append, mem_singleton] at hb
    rcases hb with hb | rfl
    · rw [hother b hb]
      by_cases hids : ids b = ids a
      · have hlt := hbelow b hb hids
        rw [hids, hsame]
        omega
      · rw [hcounts _ hids]
        exact h.lt b hb
    · rw [hself, hsame]
      exact Nat.lt_succ_self _
  · intro b hb d hd hids hrank
    rw [mem_append, mem_singleton] at hb hd
    rcases hb with hb | rfl <;> rcases hd with hd | rfl
    · rw [hother b hb, hother d hd] at hrank
      exact h.inj b hb d hd hids hrank
    · have hlt := hbelow b hb hids
      rw [hother b hb, hself] at hrank
      omega
    · have hlt := hbelow d hd hids.symm
      rw [hother d hd, hself] at hrank
      omega
    · rfl

theorem ranked_countTile (ids : Nat → Nat) {order : List Nat}
    (hnodup : order.Nodup) : Ranked ids order (countTile ids order) := by
  induction order using List.reverseRecOn with
  | nil => exact ⟨fun _ => rfl, nofun, nofun⟩
  | append_singleton order a ih =>
    rw [nodup_append] at hnodup
    have ha : a ∉ order := fun hmem =>
      hnodup.2.2 a hmem a (mem_singleton_self a) rfl
    rw [countTile, foldl_append]
    exact (ih hnodup.1).atomicAdd ha

-- ============ the tiles

theorem mem_tileAssignments {tokens tile a : Nat} :
    a ∈ tileAssignments tokens tile ↔ a < 8 * tokens ∧ a / 8 / 8 = tile := by
  simp only [tileAssignments, mem_flatMap, mem_filter,
    mem_map, mem_range, decide_eq_true_eq]
  constructor
  · rintro ⟨token, ⟨⟨warp, hwarp, rfl⟩, htoken⟩, rank, hrank, rfl⟩
    omega
  · rintro ⟨ha, htile⟩
    exact ⟨a / 8, ⟨⟨a / 8 % 8, by omega, by omega⟩, by omega⟩, a % 8,
      by omega, by omega⟩

theorem tileAssignments_nodup (tokens tile : Nat) :
    (tileAssignments tokens tile).Nodup := by
  rw [tileAssignments, nodup_flatMap]
  constructor
  · intro token _
    refine List.Nodup.map_on ?_ nodup_range
    intro a _ b _ hsame
    omega
  · have htokens : (((List.range 8).map fun warp => tile * 8 + warp).filter
        fun token => token < tokens).Nodup := by
      refine List.Nodup.filter _ (List.Nodup.map_on ?_ nodup_range)
      intro a _ b _ hsame
      omega
    refine htokens.imp ?_
    intro a b hne x hx hx'
    simp only [mem_map, mem_range] at hx hx'
    obtain ⟨rank, hrank, rfl⟩ := hx
    obtain ⟨rank', hrank', hsame⟩ := hx'
    omega

/-- The tiles' assignments are all there are. -/
theorem tiles_perm (tokens : Nat) :
    ((List.range (routeTiles tokens)).flatMap
      (tileAssignments tokens)).Perm (List.range (8 * tokens)) := by
  have hnodup : ((List.range (routeTiles tokens)).flatMap
      (tileAssignments tokens)).Nodup := by
    rw [nodup_flatMap]
    refine ⟨fun tile _ => tileAssignments_nodup tokens tile, ?_⟩
    refine nodup_range.imp ?_
    intro s t hne x hx hx'
    rw [mem_tileAssignments] at hx hx'
    omega
  rw [perm_ext_iff_of_nodup hnodup nodup_range]
  intro a
  simp only [mem_flatMap, mem_range, mem_tileAssignments, routeTiles]
  constructor
  · rintro ⟨tile, -, ha, -⟩
    exact ha
  · intro ha
    exact ⟨a / 8 / 8, by omega, ha, rfl⟩

-- ============ the sums

/-- Counting tile by tile is counting. -/
theorem prefixSum_countP (p : Nat → Bool) (lists : Nat → List Nat) (n : Nat) :
    prefixSum (fun i => (lists i).countP p) n
      = ((List.range n).flatMap lists).countP p := by
  induction n with
  | zero => rfl
  | succ n ih =>
    rw [prefixSum_succ, ih, range_succ, flatMap_append,
      countP_append, flatMap_singleton]

theorem countP_lt_succ (ids : Nat → Nat) (l : List Nat) (n : Nat) :
    l.countP (ids · < n + 1)
      = l.countP (ids · < n) + l.countP (ids · = n) := by
  induction l with
  | nil => rfl
  | cons a l ih =>
    simp only [countP_cons, ih, decide_eq_true_eq]
    split_ifs <;> omega

/-- Counting expert by expert is counting. -/
theorem prefixSum_countP_eq (ids : Nat → Nat) (l : List Nat) (n : Nat) :
    prefixSum (fun expert => l.countP (ids · = expert)) n
      = l.countP (ids · < n) := by
  induction n with
  | zero =>
    rw [prefixSum_zero]
    exact (countP_eq_zero.mpr fun a _ => by simp).symm
  | succ n ih => rw [prefixSum_succ, ih, countP_lt_succ]

variable {expert : Nat}

/-- The scan kernel's sums. -/
theorem expertScan_eq (f : Nat → Nat) (h : expert < 256) :
    expertScan f expert = prefixSum f (expert + 1) :=
  scanSteps_eq f h

theorem scanBase_eq (f : Nat → Nat) (h : expert ≤ 256) :
    scanBase f expert = prefixSum f expert := by
  rw [scanBase]
  by_cases hzero : expert = 0
  · rw [if_pos hzero, hzero, prefixSum_zero]
  · have hback : expert - 1 + 1 = expert := by omega
    rw [if_neg hzero, expertScan_eq f (by omega), hback]

theorem expertOffset_eq (f : Nat → Nat) (h : expert ≤ 256) :
    expertOffset f expert = prefixSum f expert := by
  rw [expertOffset]
  by_cases hlast : expert = 256
  · rw [if_pos hlast, hlast, expertScan_eq f (by decide)]
  · rw [if_neg hlast, scanBase_eq f h]

-- ============ the jobs

theorem jobWrites_length (count : Nat → Nat) (jobBn : Nat) :
    (jobWrites count jobBn).length
      = prefixSum (expertJobs count jobBn) 256 := by
  have hlength := congrArg List.length
    (blocks_eq_range (expertJobs count jobBn) 256)
  rw [length_range] at hlength
  rw [← hlength, jobWrites, length_flatMap, length_flatMap]
  simp only [length_map]

/-- Every slot before the end is written once, and no other. -/
theorem jobWrites_slots (count : Nat → Nat) (jobBn : Nat) :
    (jobWrites count jobBn).map Prod.fst
      = List.range (jobWrites count jobBn).length := by
  rw [jobWrites_length, ← blocks_eq_range, jobWrites, map_flatMap]
  refine flatMap_congr fun expert hexpert => ?_
  rw [mem_range] at hexpert
  rw [map_map, scanBase_eq _ (by omega)]
  rfl

/-- The jobs of one expert cut its columns. -/
theorem expert_jobColumns (count : Nat → Nat) {jobBn : Nat}
    (hjobBn : 0 < jobBn) (hexpert : expert < 256) :
    ((List.range (expertJobs count jobBn expert)).flatMap fun job =>
        jobColumns (expertOffset count) jobBn ⟨expert, job * jobBn⟩)
      = (List.range (count expert)).map (prefixSum count expert + ·) := by
  have hcount : prefixSum count (expert + 1) - prefixSum count expert
      = count expert := by
    rw [prefixSum_succ]
    omega
  rw [← tiles_eq_range (count expert) hjobBn, map_flatMap]
  refine flatMap_congr fun job _ => ?_
  have hcols : (if count expert - job * jobBn < jobBn
        then count expert - job * jobBn else jobBn)
      = min (count expert - job * jobBn) jobBn := by
    split <;> omega
  rw [jobColumns]
  dsimp only
  rw [expertOffset_eq count (by omega), expertOffset_eq count (by omega),
    hcount, hcols, map_map]
  refine map_congr_left fun col _ => ?_
  exact Nat.add_assoc _ _ _

/-- The jobs' columns, job by job, are the packed columns in order. -/
theorem jobWrites_columns (count : Nat → Nat) {jobBn : Nat} (hjobBn : 0 < jobBn) :
    ((jobWrites count jobBn).map Prod.snd).flatMap
        (jobColumns (expertOffset count) jobBn)
      = List.range (prefixSum count 256) := by
  rw [← blocks_eq_range, jobWrites, map_flatMap, flatMap_assoc]
  refine flatMap_congr fun expert hexpert => ?_
  rw [mem_range] at hexpert
  rw [← expert_jobColumns count hjobBn hexpert, map_map, flatMap_map]
  rfl

theorem routeJobCount_natAbs (count : Nat → Nat) (jobBn tokens : Nat)
    (adaptive : Bool) :
    (routeJobCount count jobBn tokens adaptive).natAbs
      = (jobWrites count jobBn).length := by
  rw [jobWrites_length, routeJobCount, expertScan_eq _ (by decide)]
  split
  · rw [Int.natAbs_neg, Int.natAbs_natCast]
  · rw [Int.natAbs_natCast]

theorem routeJobBn_ge (tokens : Nat) : 32 ≤ routeJobBn tokens := by
  rw [routeJobBn]
  split <;> omega

-- ============ a slice

namespace Slice

variable {α : Type} [Preorder α] [DecidableLE α] [DecidableLT α]
  [OrderBot α] {tokens : Nat} (slice : Slice α tokens)

theorem ranked (tile : Nat) :
    Ranked slice.ids (slice.order tile)
      (countTile slice.ids (slice.order tile)) :=
  ranked_countTile slice.ids
    ((slice.perm tile).nodup_iff.mpr (tileAssignments_nodup tokens tile))

omit [Preorder α] [DecidableLE α] [DecidableLT α] [OrderBot α] in
/-- An assignment stands in the order of its tile. -/
theorem mem_order {a : Nat} (ha : a < 8 * tokens) :
    a ∈ slice.order (a / 8 / 8) := by
  rw [(slice.perm _).mem_iff, mem_tileAssignments]
  exact ⟨ha, rfl⟩

theorem tileCounts_eq (tile expert : Nat) :
    slice.tileCounts tile expert
      = (tileAssignments tokens tile).countP (slice.ids · = expert) := by
  rw [tileCounts, (slice.ranked tile).counts, (slice.perm tile).countP_eq]

/-- An expert's count: its assignments in the slice. -/
theorem counts_eq (expert : Nat) :
    slice.counts expert
      = (List.range (8 * tokens)).countP (slice.ids · = expert) := by
  rw [counts, prefixSum_congr fun tile _ => slice.tileCounts_eq tile expert,
    prefixSum_countP, (tiles_perm tokens).countP_eq]

theorem offset_eq {expert : Nat} (h : expert ≤ 256) :
    slice.offset expert = prefixSum slice.counts expert :=
  expertOffset_eq slice.counts h

section

variable (comparable : ∀ a b : α, a ≤ b ∨ b ≤ a)
include comparable

theorem ids_eq (token : Nat) :
    ((List.range 8).map fun rank => slice.ids (token * 8 + rank))
      = (selectTop8Warp (slice.scores token)).map RankedValue.id := by
  have hlength := (selectTop8Warp_eightBest comparable
    (slice.scores token)).length
  refine ext_getElem ?_ ?_
  · rw [hlength, length_map, length_range]
  · intro rank hrank hrank'
    rw [hlength] at hrank'
    have htoken : (token * 8 + rank) / 8 = token := by omega
    have hmod : (token * 8 + rank) % 8 = rank := by omega
    rw [getElem_map, getElem_range, ids, tokenId, htoken, hmod,
      List.getElem?_eq_getElem, Option.getD_some]

theorem ids_lt (a : Nat) : slice.ids a < 256 := by
  have height := selectTop8Warp_eightBest comparable (slice.scores (a / 8))
  have hrank : a % 8 <
      ((selectTop8Warp (slice.scores (a / 8))).map RankedValue.id).length := by
    rw [height.length]
    omega
  rw [ids, tokenId, List.getElem?_eq_getElem hrank, Option.getD_some]
  exact height.experts _ (getElem_mem hrank)

/-- All experts together have all assignments. -/
theorem counts_total : prefixSum slice.counts 256 = 8 * tokens := by
  rw [prefixSum_congr fun expert _ => slice.counts_eq expert, prefixSum_countP_eq]
  have hall : (List.range (8 * tokens)).countP (slice.ids · < 256)
      = (List.range (8 * tokens)).length := by
    rw [countP_eq_length]
    intro a _
    rw [decide_eq_true_eq]
    exact slice.ids_lt comparable a
  rw [hall, length_range]

-- ============ the columns

/-- The three digits of a column. -/
theorem packed_eq (a : Nat) :
    slice.packed a = prefixSum slice.counts (slice.ids a) +
      (prefixSum (fun tile => slice.tileCounts tile (slice.ids a))
        (a / 8 / 8) + slice.localRank a) := by
  have hexpert := slice.ids_lt comparable a
  rw [packed, tileBase, scanBase_eq _ (by omega), Nat.add_assoc]

variable {a : Nat}

omit comparable in
theorem localRank_lt (ha : a < 8 * tokens) :
    slice.localRank a < slice.tileCounts (a / 8 / 8) (slice.ids a) :=
  (slice.ranked _).lt a (slice.mem_order ha)

/-- A column lies among those of its expert. -/
theorem packed_mem (ha : a < 8 * tokens) :
    prefixSum slice.counts (slice.ids a) ≤ slice.packed a ∧
      slice.packed a < prefixSum slice.counts (slice.ids a + 1) := by
  have hrank := slice.localRank_lt ha
  have htile : a / 8 / 8 + 1 ≤ routeTiles tokens := by
    rw [routeTiles]
    omega
  have hmono := prefixSum_mono
    (fun tile => slice.tileCounts tile (slice.ids a)) htile
  rw [prefixSum_succ] at hmono
  rw [slice.packed_eq comparable, prefixSum_succ, counts]
  omega

theorem packed_lt (ha : a < 8 * tokens) : slice.packed a < 8 * tokens := by
  have hexpert := slice.ids_lt comparable a
  have hmono := prefixSum_mono slice.counts (show slice.ids a + 1 ≤ 256 by omega)
  have hlt := (slice.packed_mem comparable ha).2
  rw [slice.counts_total comparable] at hmono
  omega

/-- No two assignments share a column. -/
theorem packed_inj {b : Nat} (ha : a < 8 * tokens) (hb : b < 8 * tokens)
    (h : slice.packed a = slice.packed b) : a = b := by
  have hina := slice.packed_mem comparable ha
  have hinb := slice.packed_mem comparable hb
  have hids : slice.ids a = slice.ids b := by
    rw [← h] at hinb
    exact block_unique hina.1 hina.2 hinb.1 hinb.2
  rw [slice.packed_eq comparable a, slice.packed_eq comparable b, hids] at h
  have hranka := slice.localRank_lt ha
  have hrankb := slice.localRank_lt hb
  rw [hids] at hranka
  have htile : a / 8 / 8 = b / 8 / 8 := by
    refine block_unique (f := fun tile => slice.tileCounts tile (slice.ids b))
      (p := prefixSum (fun tile => slice.tileCounts tile (slice.ids b))
        (a / 8 / 8) + slice.localRank a) ?_ ?_ ?_ ?_
    · omega
    · rw [prefixSum_succ]
      omega
    · omega
    · rw [prefixSum_succ]
      omega
  rw [htile] at h
  have hrank : slice.localRank a = slice.localRank b := by omega
  have hmem := slice.mem_order ha
  rw [htile] at hmem
  rw [localRank, localRank, htile] at hrank
  exact (slice.ranked _).inj a hmem b (slice.mem_order hb) hids hrank

theorem packed_bijOn :
    Set.BijOn slice.packed (Set.Iio (8 * tokens)) (Set.Iio (8 * tokens)) := by
  have hmaps : Set.MapsTo slice.packed (Finset.range (8 * tokens))
      (Finset.range (8 * tokens)) := by
    intro a ha
    rw [Finset.mem_coe, Finset.mem_range] at ha ⊢
    exact slice.packed_lt comparable ha
  have hinj : Set.InjOn slice.packed (Finset.range (8 * tokens)) := by
    intro a ha b hb hsame
    rw [Finset.mem_coe, Finset.mem_range] at ha hb
    exact slice.packed_inj comparable ha hb hsame
  have hsurj := Finset.surjOn_of_injOn_of_card_le slice.packed hmaps hinj
    (Nat.le_refl _)
  have hrange : (Finset.range (8 * tokens) : Set Nat)
      = Set.Iio (8 * tokens) := by
    ext a
    rw [Finset.mem_coe, Finset.mem_range, Set.mem_Iio]
  rw [hrange] at hmaps hinj hsurj
  exact ⟨hmaps, hinj, hsurj⟩

/-- The columns of an expert. -/
theorem packed_image {expert : Nat} (hexpert : expert < 256) :
    slice.packed '' {a | a < 8 * tokens ∧ slice.ids a = expert}
      = Set.Ico (slice.offset expert) (slice.offset (expert + 1)) := by
  rw [slice.offset_eq (by omega), slice.offset_eq (by omega)]
  ext column
  constructor
  · rintro ⟨a, ⟨ha, rfl⟩, rfl⟩
    exact slice.packed_mem comparable ha
  · rintro ⟨hge, hlt⟩
    have hmono := prefixSum_mono slice.counts (show expert + 1 ≤ 256 by omega)
    rw [slice.counts_total comparable] at hmono
    obtain ⟨a, ha, rfl⟩ := (slice.packed_bijOn comparable).surjOn
      (show column ∈ Set.Iio (8 * tokens) from Nat.lt_of_lt_of_le hlt hmono)
    have hmem := slice.packed_mem comparable ha
    exact ⟨a, ⟨ha, block_unique hmem.1 hmem.2 hge hlt⟩, rfl⟩

/-- The jobs fit the workspace of a slice. -/
theorem jobWrites_le : slice.jobWrites.length ≤ maxRouteJobs tokens := by
  have htiles := prefixSum_tiles_le slice.counts (by decide)
    (routeJobBn_ge tokens) 256
  rw [slice.counts_total comparable] at htiles
  rw [jobWrites, jobWrites_length, maxRouteJobs]
  exact htiles

end

-- ============ the routing

/-- What the routing of a slice is for. -/
structure Routed (routedDown : QType) (slice : Slice α tokens) : Prop where
  eightBest : ∀ token < tokens, EightBest (slice.scores token)
    ((List.range 8).map fun rank => slice.ids (token * 8 + rank))
  packed : Set.BijOn (fun cell : Nat × Nat => slice.packed (cell.1 * 8 + cell.2))
    (Set.Iio tokens ×ˢ Set.Iio 8) (Set.Iio (8 * tokens))
  experts : ∀ expert < 256,
    slice.packed '' {a | a < 8 * tokens ∧ slice.ids a = expert}
      = Set.Ico (slice.offset expert) (slice.offset (expert + 1))
  slots : slice.jobWrites.map Prod.fst = List.range slice.jobWrites.length
  columns : (slice.jobWrites.map Prod.snd).flatMap
      (jobColumns slice.offset (routeJobBn tokens))
    = List.range (8 * tokens)
  reported : (slice.routeJobCount routedDown).natAbs = slice.jobWrites.length
  allocated : slice.jobWrites.length ≤ maxRouteJobs tokens

/-- Tokens and ranks number the assignments. -/
theorem assignment_bijOn (tokens : Nat) :
    Set.BijOn (fun cell : Nat × Nat => cell.1 * 8 + cell.2)
      (Set.Iio tokens ×ˢ Set.Iio 8) (Set.Iio (8 * tokens)) := by
  refine ⟨?_, ?_, ?_⟩
  · rintro ⟨token, rank⟩ ⟨htoken, hrank⟩
    simp only [Set.mem_Iio] at htoken hrank ⊢
    omega
  · rintro ⟨token, rank⟩ ⟨htoken, hrank⟩ ⟨token', rank'⟩ ⟨htoken', hrank'⟩ hsame
    simp only [Set.mem_Iio] at htoken hrank htoken' hrank' hsame
    rw [Prod.mk.injEq]
    omega
  · intro a ha
    rw [Set.mem_Iio] at ha
    refine ⟨(a / 8, a % 8), ⟨?_, ?_⟩, ?_⟩
    · rw [Set.mem_Iio]
      omega
    · rw [Set.mem_Iio]
      omega
    · change a / 8 * 8 + a % 8 = a
      omega

theorem routed (comparable : ∀ a b : α, a ≤ b ∨ b ≤ a)
    (routedDown : QType) : Routed routedDown slice where
  eightBest token _ := by
    rw [slice.ids_eq comparable]
    exact selectTop8Warp_eightBest comparable _
  packed := (slice.packed_bijOn comparable).comp (assignment_bijOn tokens)
  experts _ hexpert := slice.packed_image comparable hexpert
  slots := jobWrites_slots _ _
  columns := by
    have hjobBn := routeJobBn_ge tokens
    rw [jobWrites, ← slice.counts_total comparable]
    exact jobWrites_columns slice.counts (by omega)
  reported := routeJobCount_natAbs _ _ _ _
  allocated := slice.jobWrites_le comparable

end Slice

end Ginfer.Ops.SparseMoe
