/-
The pool over whole runs of the host program.

`pool_invariant_run` is the module's result: after any finite sequence of
calls — over any number of pools and handles, each call returning or
throwing, with host allocations failing wherever they like — the
representation invariant holds, materialising inside an entitlement cannot
find the pool short, and none of the unsigned arithmetic has wrapped.
-/
import Ginfer.Pool.Proofs.Operations

namespace Ginfer.Pool.PagedKV

open Ginfer.Lib

variable {κ ι : Type} [DecidableEq κ] [DecidableEq ι] [Fintype ι]

/-- The unsigned arithmetic of pool `k` gives the integer result: the
differences of `can_reserve` and `can_replace_entitlement`, the sum of
`take_pages` and the difference of `return_pages`. -/
structure NoWrap (w : PagedKV κ ι) (k : κ) : Prop where
  can_reserve :
    (u32Sub (w.pools k).spec.pageGroupCount (w.pools k).entitledPages : Int)
      = (w.pools k).spec.pageGroupCount - (w.pools k).entitledPages
  can_replace : ∀ oldPages ≤ (w.pools k).entitledPages,
    (u32Sub (w.pools k).entitledPages oldPages : Int)
        = (w.pools k).entitledPages - oldPages
      ∧ (u32Sub (w.pools k).spec.pageGroupCount
            (u32Sub (w.pools k).entitledPages oldPages) : Int)
          = (w.pools k).spec.pageGroupCount
            - ((w.pools k).entitledPages - oldPages)
  take_pages : ∀ count ≤ (w.pools k).freePageIds.length,
    u32Add (w.pools k).mappedPages count = (w.pools k).mappedPages + count
  return_pages : ∀ i a, w.allocations i = some a → a.pool = k →
    ∀ count ≤ a.mappedPageCount,
      (u32Sub (w.pools k).mappedPages count : Int)
        = (w.pools k).mappedPages - count

/-- `u32Sub` is the integer difference when it does not underflow. -/
private theorem u32Sub_int {a b : Nat} (hb : b ≤ a) (ha : a < 2 ^ 31) :
    (u32Sub a b : Int) = a - b := by
  rw [u32Sub_eq hb (by omega)]
  omega

/-- The invariant keeps the arithmetic exact. -/
theorem Inv.noWrap {w : PagedKV κ ι} (h : Inv w) (k : κ) : NoWrap w k := by
  have hk := h k
  have hfit := hk.counters_fit
  have hent := hk.entitled_le
  have hfree := hk.free_add_mapped
  have hgroups := (w.pools k).spec.page_group_count_fits
  constructor
  case can_reserve => exact u32Sub_int hent hgroups
  case can_replace =>
    intro oldPages hold
    have hinner := u32Sub_eq hold (by omega)
    rw [hinner]
    refine ⟨by omega, ?_⟩
    rw [u32Sub_int (by omega) hgroups]
    omega
  case take_pages =>
    intro count hcount
    exact u32Add_eq (by omega)
  case return_pages =>
    intro i a ha ha' count hcount
    have hin := hk.mapped_le_mapped ha ha'
    exact u32Sub_int (by omega) hfit.2

/-- Under the invariant the free list covers what an allocation may still
map, so `take_pages` never finds it short. -/
theorem Inv.takePages_covered {w : PagedKV κ ι} (h : Inv w) {i : ι}
    {a : PagedKVAllocation κ} (ha : w.allocations i = some a)
    (pages : Nat) (hle : pages ≤ a.pageEntitlement)
    (preferred : Option Nat) (allocates : Bool) :
    (w.pools a.pool).takePages (pages - a.mappedPageCount) preferred allocates
      ≠ .error (.logicError
        "Paged KV entitlement could not be materialized") := by
  have hcover := (h a.pool).unmapped_le_free ha rfl
  unfold PagedKVPool.takePages
  split
  · simp
  split
  · omega
  split
  · simp
  split
  · simp
  · simp

/-- No `materialize` reaches the pool's own failure: outside the
entitlement it is refused before, inside it is covered. -/
theorem Inv.materializePages_covered {w : PagedKV κ ι} (h : Inv w)
    (i : ι) (pages : Nat) (allocates : Bool) :
    (w.materializePages i pages allocates).thrown
      ≠ some (.logicError
        "Paged KV entitlement could not be materialized") := by
  unfold materializePages
  split
  · simp
  next a ha =>
  split
  · simp
  next hext =>
  split
  · simp
  split
  · next e htake =>
    have hcover := h.takePages_covered ha pages (by omega)
      a.preferredFirst allocates
    rw [htake] at hcover
    simpa using hcover
  · simp

/-- After every finite sequence of calls, returned or thrown, the
invariant of every pool holds, no `materialize` finds the pool short of
pages, and no counter has wrapped. -/
theorem pool_invariant_run (specs : κ → PagedKVPoolSpec)
    (tables : κ → Nat → Nat → Nat) (ops : List (Op κ ι))
    (w : PagedKV κ ι) (hrun : run step (init specs tables) ops = some w) :
    Inv w
      ∧ (∀ i pages allocates, (w.materializePages i pages allocates).thrown
          ≠ some (.logicError "Paged KV entitlement could not be materialized"))
      ∧ ∀ k, NoWrap w k := by
  have hinv : Inv w :=
    run_inv (P := Inv) (fun _ _ _ hstep h => step_keeps hstep h) hrun
      (init_inv specs tables)
  exact ⟨hinv, hinv.materializePages_covered, hinv.noWrap⟩

/-- A pool of four pages and two rows. -/
def fourPages : PagedKVPoolSpec where
  pageGroupCount := 4
  logicalPageCapacity := 4
  tableRows := 2
  page_group_count_pos := by decide
  page_group_count_fits := by decide
  logical_page_capacity_pos := by decide
  logical_page_capacity_fits := by decide
  table_rows_pos := Nat.zero_lt_two
  table_rows_fits := by decide

/-- There are handles in the samples. -/
theorem handles_ne : NeZero 3 := ⟨by decide⟩

attribute [local instance] handles_ne

/-- A run over two pools: a bundle, a bound row that is published, a
page list that cannot be allocated, a move onto a live handle. -/
def sampleOps : List (Op Bool (Fin 3)) :=
  [ .reserveBundle [⟨0, some true, 3, true⟩, ⟨1, some false, 2, true⟩] true,
    .bindRow 0 1,
    .materializeTokens 0 100 true,
    .materializePages 0 3 false,
    .materializePages 1 2 true,
    .reserve 2 true 1 true,
    .materializePages 2 1 true,
    .resizeBundle [⟨some 0, 1, 2⟩] true,
    .move 1 2 ]

theorem pool_invariant_run_sample :
    ∃ w : PagedKV Bool (Fin 3),
      run step (init (fun _ => fourPages) (fun _ _ _ => 0)) sampleOps = some w
        ∧ (w.pools true).freePageIds = [1, 3]
        ∧ (w.pools true).mappedPages = 2
        ∧ (w.pools false).freePageIds = [0, 1, 2, 3]
        ∧ Inv w :=
  ⟨_, rfl, by decide, by decide, by decide,
    (pool_invariant_run (fun _ => fourPages) (fun _ _ _ => 0) sampleOps _
      rfl).1⟩

end Ginfer.Pool.PagedKV
