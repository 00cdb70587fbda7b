/-
What the pool operations leave alone.

Operations.lean shows that every operation keeps the invariant, whatever
it is called with. A write to a handle also leaves every other handle and
pool alone, and no pool changes its plan.
-/
import Ginfer.Pool.Proofs.Pool

namespace Ginfer.Pool.PagedKV

open Ginfer.Lib

variable {κ ι : Type} [DecidableEq κ] [DecidableEq ι]
variable {w w' w'' : PagedKV κ ι} {k : κ} {i : ι}
  {o o' : Option (PagedKVAllocation κ)} {a : PagedKVAllocation κ}

-- ============ the frame

/-- `w'` is `w` except that handle `i` holds `o` and pool `k`, whose plan
is the same, may have changed. -/
structure Writes (w w' : PagedKV κ ι) (k : κ) (i : ι)
    (o : Option (PagedKVAllocation κ)) : Prop where
  here : w'.allocations i = o
  elsewhere : ∀ j, j ≠ i → w'.allocations j = w.allocations j
  spec_eq : (w'.pools k).spec = (w.pools k).spec
  pools : ∀ k', k' ≠ k → w'.pools k' = w.pools k'

theorem put_writes {p : PagedKVPool} (hspec : p.spec = (w.pools k).spec) :
    Writes w (w.put k p i o) k i o where
  here := put_allocations_self ..
  elsewhere := fun _ hj => put_allocations_of_ne _ _ _ _ _ hj
  spec_eq := by rw [put_pools_self]; exact hspec
  pools := fun _ hk' => put_pools_of_ne _ _ _ _ _ hk'

omit [DecidableEq κ] [DecidableEq ι] in
/-- No pool changes its plan. -/
theorem Writes.specs (h : Writes w w' k i o) (k' : κ) :
    (w'.pools k').spec = (w.pools k').spec := by
  by_cases hk : k' = k
  · subst hk
    exact h.spec_eq
  · rw [h.pools k' hk]

-- ============ the pool primitives

theorem returnPages_spec (p : PagedKVPool) (pages : List Nat) :
    (p.returnPages pages).spec = p.spec :=
  (PagedKVPool.returnPages_books pages).1

theorem takePages_spec {p p' : PagedKVPool} {count : Nat}
    {preferred : Option Nat} {allocates : Bool} {out : List Nat}
    (h : p.takePages count preferred allocates = .ok (out, p')) :
    p'.spec = p.spec ∧ out.length = count := by
  by_cases hcount : count = 0
  · subst hcount
    unfold PagedKVPool.takePages at h
    rw [if_pos rfl] at h
    cases h
    exact ⟨rfl, rfl⟩
  · obtain ⟨start, hle, hrun⟩ := PagedKVPool.takePages_run h hcount
    have hlen := PagedKVPool.extractRun_length (p := p) hle
    rw [← hrun] at hlen
    have hspec : (p.extractRun start count).2.spec = p.spec := rfl
    rw [← hrun] at hspec
    exact ⟨hspec, hlen⟩

end Ginfer.Pool.PagedKV
