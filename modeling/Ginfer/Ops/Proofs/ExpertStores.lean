/-
Every token's output is accumulated once, by one route.

The two kernels that accumulate into the destination each store every row
of every token of the slice once (`sharedDownStores`, `tokenStores`); the
sign of the reported job count lets exactly one of them run
(`sliceStores_eq`), and the slices cut the tokens (`launchStores_nodup`,
`mem_launchStores`).
-/
import Ginfer.Ops.Proofs.ExpertRouting

namespace Ginfer.Ops.SparseMoe

open Ginfer.Lib List Prod

-- ============ the kernels

/-- The stores of the shared down kernel, thread by thread. -/
theorem mem_sharedDownStores {tokens token row : Nat} :
    (token, row) ∈ sharedDownStores tokens ↔ token < tokens ∧ row < 2048 := by
  simp only [sharedDownStores, mem_filterMap, Prod.exists,
    mem_product, mem_range, Option.ite_none_right_eq_some,
    Bool.and_eq_true, decide_eq_true_eq, Option.some.injEq, mk.injEq]
  constructor
  · rintro ⟨bx, y, warp, lane, mi, col, half, hthread, hcols, rfl, rfl⟩
    split at hcols <;> omega
  · rintro ⟨htoken, hrow⟩
    refine ⟨row / 64, token / 64, token % 64 / 8,
      row % 8 * 4 + token % 8 / 2, row % 64 / 16, token % 2,
      row % 16 / 8, by omega, ?_, by omega, by omega⟩
    split <;> omega

theorem sharedDownStores_nodup (tokens : Nat) :
    (sharedDownStores tokens).Nodup := by
  rw [sharedDownStores, List.Nodup, pairwise_filterMap]
  have hthreads := (nodup_range (n := 32)).product
    ((nodup_range (n := (tokens + 64 - 1) / 64)).product
      ((nodup_range (n := 8)).product
        ((nodup_range (n := 32)).product
          ((nodup_range (n := 4)).product
            ((nodup_range (n := 2)).product (nodup_range (n := 2)))))))
  refine hthreads.imp_of_mem ?_
  rintro ⟨bx, y, warp, lane, mi, col, half⟩
    ⟨bx', y', warp', lane', mi', col', half'⟩ hmem hmem' hne cell hcell
    cell' hcell' hsame
  simp only [mem_product, mem_range] at hmem hmem'
  simp only [Option.ite_none_right_eq_some, Bool.and_eq_true,
    decide_eq_true_eq, Option.some.injEq] at hcell hcell'
  obtain ⟨hcols, rfl⟩ := hcell
  obtain ⟨hcols', rfl⟩ := hcell'
  rw [mk.injEq] at hsame
  -- Block, warp, lane and fragment are digits of the token and the row.
  have hblock : y = y' ∧ bx = bx' := by
    split at hcols <;> split at hcols' <;> omega
  apply hne
  simp only [mk.injEq]
  omega

/-- The stores of the token-oriented kernel, block by block. -/
theorem mem_tokenStores {tokens token row : Nat} :
    (token, row) ∈ tokenStores tokens ↔ token < tokens ∧ row < 2048 := by
  simp only [tokenStores, mem_flatMap, mem_range, mem_map,
    mem_gridStride (show 0 < 2560 by decide), mk.injEq]
  constructor
  · rintro ⟨work, hwork, lane, hlane, rfl, rfl⟩
    omega
  · rintro ⟨htoken, hrow⟩
    exact ⟨token * 512 + row / 4, by omega, row % 4, by omega, by omega,
      by omega⟩

theorem tokenStores_nodup (tokens : Nat) : (tokenStores tokens).Nodup := by
  rw [tokenStores, nodup_flatMap]
  constructor
  · intro work _
    refine List.Nodup.map_on ?_ nodup_range
    intro a _ b _ hsame
    rw [mk.injEq] at hsame
    omega
  · refine (gridStride_nodup (by decide)).imp ?_
    intro work work' hne cell hcell hcell'
    simp only [mem_map, mem_range] at hcell hcell'
    obtain ⟨lane, hlane, rfl⟩ := hcell
    obtain ⟨lane', hlane', hsame⟩ := hcell'
    rw [mk.injEq] at hsame
    omega

-- ============ a slice

/-- One of the two kernels runs. -/
theorem sliceStores_eq (tokens : Nat) (adaptive : Bool) (jobCount : Int) :
    sliceStores tokens adaptive jobCount =
      if adaptive && decide (jobCount < 0) then
        (tokenStores tokens).map fun cell => (Route.token, cell)
      else (sharedDownStores tokens).map fun cell => (Route.grouped, cell) := by
  cases adaptive with
  | false => rfl
  | true =>
    by_cases hneg : jobCount < 0
    · have hpos : ¬ 0 ≤ jobCount := by omega
      simp [sliceStores, hneg, hpos]
    · have hpos : 0 ≤ jobCount := by omega
      simp [sliceStores, hneg, hpos]

/-- The route that accumulates a slice. -/
def sliceRoute (adaptive : Bool) (jobCount : Int) : Route :=
  if adaptive && decide (jobCount < 0) then .token else .grouped

theorem mem_stores_of_route {route kernel : Route} {cell : Nat × Nat}
    {stores : List (Nat × Nat)} :
    (route, cell) ∈ stores.map (fun cell => (kernel, cell)) ↔
      route = kernel ∧ cell ∈ stores := by
  rw [mem_map]
  constructor
  · rintro ⟨_, hcell, heq⟩
    obtain ⟨hroute, rfl⟩ := mk.inj heq
    exact ⟨hroute.symm, hcell⟩
  · rintro ⟨rfl, hcell⟩
    exact ⟨cell, hcell, rfl⟩

theorem mem_sliceStores {tokens : Nat} {adaptive : Bool} {jobCount : Int}
    {route : Route} {token row : Nat} :
    (route, token, row) ∈ sliceStores tokens adaptive jobCount ↔
      route = sliceRoute adaptive jobCount ∧ token < tokens ∧ row < 2048 := by
  rw [sliceStores_eq, sliceRoute]
  split
  · rw [mem_stores_of_route, mem_tokenStores]
  · rw [mem_stores_of_route, mem_sharedDownStores]

theorem sliceStores_nodup (tokens : Nat) (adaptive : Bool)
    (jobCount : Int) : (sliceStores tokens adaptive jobCount).Nodup := by
  rw [sliceStores_eq]
  split
  · exact (tokenStores_nodup tokens).map fun _ _ hsame =>
      (mk.inj hsame).2
  · exact (sharedDownStores_nodup tokens).map fun _ _ hsame =>
      (mk.inj hsame).2

-- ============ a launch

section

variable {plan : PrefillPlan}

theorem mem_starts (hslice : 0 < plan.sliceTokens) {token0 : Nat} :
    token0 ∈ plan.starts ↔
      token0 < plan.tokens ∧ ∃ n, token0 = n * plan.sliceTokens := by
  rw [PrefillPlan.starts, mem_strideLoop hslice]
  simp only [Nat.zero_add]

/-- A token is in one slice only. -/
theorem start_eq (hslice : 0 < plan.sliceTokens) {token0 token : Nat}
    (hstart : token0 ∈ plan.starts) (hcell : token < plan.sliceSize token0) :
    token0 = (token0 + token) / plan.sliceTokens * plan.sliceTokens := by
  obtain ⟨-, n, rfl⟩ := (mem_starts hslice).mp hstart
  have hinside : token < plan.sliceTokens :=
    Nat.lt_of_lt_of_le hcell (Nat.min_le_left _ _)
  rw [Nat.mul_comm n, Nat.mul_add_div hslice, Nat.div_eq_of_lt hinside,
    Nat.add_zero, Nat.mul_comm]

variable {α : Type} [Preorder α] [DecidableLE α] [DecidableLT α]
  [OrderBot α] {routedDown : QType}
  {slices : (token0 : Nat) → Slice α (plan.sliceSize token0)}

/-- The route of the slice from `token0`. -/
def startRoute (plan : PrefillPlan) (routedDown : QType)
    (slices : (token0 : Nat) → Slice α (plan.sliceSize token0))
    (token0 : Nat) : Route :=
  sliceRoute (adaptive routedDown (plan.sliceSize token0))
    ((slices token0).routeJobCount routedDown)

theorem mem_launchStores {route : Route} {token row : Nat} :
    (route, token, row) ∈ launchStores plan routedDown slices ↔
      ∃ token0 ∈ plan.starts, route = startRoute plan routedDown slices token0
        ∧ (∃ t < plan.sliceSize token0, token = token0 + t) ∧ row < 2048 := by
  simp only [launchStores, mem_flatMap, mem_map, Prod.exists,
    mk.injEq, mem_sliceStores]
  constructor
  · rintro ⟨token0, hstart, _, t, _, ⟨hroute, ht, hrow⟩, rfl, rfl, rfl⟩
    exact ⟨token0, hstart, hroute, ⟨t, ht, rfl⟩, hrow⟩
  · rintro ⟨token0, hstart, hroute, ⟨t, ht, rfl⟩, hrow⟩
    exact ⟨token0, hstart, _, t, _, ⟨hroute, ht, hrow⟩, rfl, rfl, rfl⟩

theorem launchStores_nodup (hslice : 0 < plan.sliceTokens) :
    (launchStores plan routedDown slices).Nodup := by
  rw [launchStores, nodup_flatMap]
  constructor
  · intro token0 _
    refine (sliceStores_nodup _ _ _).map ?_
    rintro ⟨route, token, row⟩ ⟨route', token', row'⟩ hsame
    simp only [mk.injEq] at hsame ⊢
    exact ⟨hsame.1, by omega, hsame.2.2⟩
  · refine (strideLoop_nodup hslice).imp_of_mem ?_
    rintro first second hfirst hsecond hne ⟨route, token, row⟩ hcell hcell'
    simp only [mem_map, Prod.exists, Prod.mk.injEq,
      mem_sliceStores] at hcell hcell'
    obtain ⟨_, t, _, ⟨-, ht, -⟩, -, rfl, -⟩ := hcell
    obtain ⟨_, t', _, ⟨-, ht', -⟩, -, hsame, -⟩ := hcell'
    apply hne
    rw [start_eq hslice hfirst ht, start_eq hslice hsecond ht', hsame]

/-- One store for every row of a token, all by the same route. -/
theorem launchStores_once (hslice : 0 < plan.sliceTokens) {token : Nat}
    (htoken : token < plan.tokens) :
    ∃ route, ∀ row < 2048,
      (launchStores plan routedDown slices).filter
        (fun store => store.2 = (token, row)) = [(route, token, row)] := by
  set token0 := token / plan.sliceTokens * plan.sliceTokens with htoken0
  have hle : token0 ≤ token := Nat.div_mul_le_self _ _
  have hlt : token < token0 + plan.sliceTokens := Nat.lt_div_mul_add hslice
  have hstart : token0 ∈ plan.starts :=
    (mem_starts hslice).mpr ⟨by omega, _, rfl⟩
  have hsize : token - token0 < plan.sliceSize token0 := by
    rw [PrefillPlan.sliceSize]
    omega
  refine ⟨startRoute plan routedDown slices token0, fun row hrow => ?_⟩
  have hmem : (startRoute plan routedDown slices token0, token, row) ∈
      launchStores plan routedDown slices :=
    mem_launchStores.mpr
      ⟨token0, hstart, rfl, ⟨token - token0, hsize, by omega⟩, hrow⟩
  have honly : ∀ store ∈ launchStores plan routedDown slices,
      decide (store.2 = (token, row)) = decide
        (store = (startRoute plan routedDown slices token0, token, row)) := by
    rintro ⟨route, token', row'⟩ hstore
    rw [decide_eq_decide]
    constructor
    · intro hcell
      change (token', row') = (token, row) at hcell
      obtain ⟨first, hfirst, hroute, ⟨t, ht, hadd⟩, -⟩ :=
        mem_launchStores.mp hstore
      have heq := start_eq hslice hfirst ht
      rw [← hadd, (mk.inj hcell).1, ← htoken0] at heq
      rw [hroute, heq, hcell]
    · intro heq
      rw [heq]
  rw [filter_congr honly, filter_eq,
    count_eq_one_of_mem (launchStores_nodup hslice) hmem]
  rfl

end

-- ============ the whole

theorem resolvePrefillPlan_ok {tokens : Nat} {routedGateUp routedDown : QType}
    {plan : PrefillPlan}
    (h : resolvePrefillPlan tokens routedGateUp routedDown = .ok plan) :
    plan = ⟨tokens, min tokens 4096⟩ ∧ 0 < plan.sliceTokens := by
  unfold resolvePrefillPlan at h
  dsimp only at h
  split at h
  · cases h
  · split at h
    · cases h
    · next hmin hge =>
      cases h
      refine ⟨rfl, ?_⟩
      dsimp only
      omega

end Ginfer.Ops.SparseMoe
