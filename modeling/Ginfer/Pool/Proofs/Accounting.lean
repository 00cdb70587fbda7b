/-
The pool's representation invariant, and what one exchange preserves.

# The invariant

`PoolInv w k` ties the five redundant pieces of pool `k`'s bookkeeping to
the allocations that point at it: the free list is strictly increasing
and, with the page lists of the allocations, partitions the page range;
the two counters are the totals over the allocations; no allocation maps
more than it is entitled to, nor all of them more than the pool has; and
the row bitmap marks exactly the rows the allocations are bound to, each
bound once.

# One exchange lemma

Every operation is, for the invariant, an EXCHANGE: it replaces one pool
and one allocation over it (`put`), and nothing else. `Exchange` lists
what such a replacement has to conserve — stated locally, between the two
pools and the two allocations, with no sum over the others — and
`Inv.exchange` turns it into preservation of the invariant of every pool.
The operations (Proofs/Operations.lean) then only establish `Exchange`.
-/
import Mathlib.Tactic.Linarith
import Ginfer.Lib.Owners
import Ginfer.Pool.PagedKV

namespace Ginfer.Pool.PagedKV

open Ginfer.Lib PagedKVAllocation Function Finset
open Multiset

variable {κ ι : Type} [DecidableEq κ] [DecidableEq ι]

-- ============ the invariant

/-- What a handle contributes to pool `k`'s total of `m`: `m` of its
allocation when that is live and over `k`, nothing otherwise. -/
def share {M : Type} [Zero M] (m : PagedKVAllocation κ → M) (k : κ) :
    Option (PagedKVAllocation κ) → M
  | none => 0
  | some a => if a.pool = k then m a else 0

/-- The pages of an allocation, as a multiset. -/
def pagesOf (a : PagedKVAllocation κ) : Multiset Nat := a.pageIds

/-- The handle's allocation is over pool `k` and bound to row `r`. -/
def BoundTo (o : Option (PagedKVAllocation κ)) (k : κ) (r : Nat) : Prop :=
  ∃ a, o = some a ∧ a.pool = k ∧ a.boundRow = some r

/-- The representation invariant of pool `k`. -/
structure PoolInv [Fintype ι] (w : PagedKV κ ι) (k : κ) : Prop where
  free_sorted : (w.pools k).freePageIds.Pairwise (· < ·)
  pages_partition :
    ((w.pools k).freePageIds : Multiset Nat)
        + ∑ i, share pagesOf k (w.allocations i)
      = Multiset.range (w.pools k).spec.pageGroupCount
  mapped_eq : (w.pools k).mappedPages
    = ∑ i, share mappedPageCount k (w.allocations i)
  entitled_eq : (w.pools k).entitledPages
    = ∑ i, share pageEntitlement k (w.allocations i)
  entitled_le : (w.pools k).entitledPages ≤ (w.pools k).spec.pageGroupCount
  mapped_le : ∀ i a, w.allocations i = some a → a.pool = k →
    a.mappedPageCount ≤ a.pageEntitlement
  row_used : ∀ r, (w.pools k).rowInUse r = true
    ↔ ∃ i, BoundTo (w.allocations i) k r
  row_lt : ∀ i r, BoundTo (w.allocations i) k r → r < (w.pools k).spec.tableRows
  row_distinct : ∀ i j r, BoundTo (w.allocations i) k r →
    BoundTo (w.allocations j) k r → i = j

/-- The representation invariant of every pool. -/
def Inv [Fintype ι] (w : PagedKV κ ι) : Prop := ∀ k, PoolInv w k

-- ============ the exchange

/-- What replacing pool `p` by `p'` and the allocation `o` over it by
`o'` must conserve. -/
structure Exchange (k : κ) (p p' : PagedKVPool)
    (o o' : Option (PagedKVAllocation κ)) : Prop where
  own : ∀ a, o = some a → a.pool = k
  own' : ∀ a, o' = some a → a.pool = k
  spec_eq : p'.spec = p.spec
  free_sorted : p'.freePageIds.Pairwise (· < ·)
  pages : (p'.freePageIds : Multiset Nat) + share pagesOf k o'
    = (p.freePageIds : Multiset Nat) + share pagesOf k o
  mapped : p'.mappedPages + share mappedPageCount k o
    = p.mappedPages + share mappedPageCount k o'
  entitled :
    p'.entitledPages + share pageEntitlement k o
      = p.entitledPages + share pageEntitlement k o'
  entitled_le : p'.entitledPages ≤ p.spec.pageGroupCount
  mapped_le : ∀ a, o' = some a → a.mappedPageCount ≤ a.pageEntitlement
  row_used : ∀ r, p'.rowInUse r = true
    ↔ BoundTo o' k r ∨ (p.rowInUse r = true ∧ ¬ BoundTo o k r)
  row_fresh : ∀ r, BoundTo o' k r → r < p.spec.tableRows
    ∧ (BoundTo o k r ∨ p.rowInUse r = false)

section

variable (w : PagedKV κ ι) (k : κ) (p : PagedKVPool) (i : ι)
  (o : Option (PagedKVAllocation κ))

@[simp] theorem put_pools_self : (w.put k p i o).pools k = p :=
  update_self ..

theorem put_pools_of_ne {k' : κ} (h : k' ≠ k) :
    (w.put k p i o).pools k' = w.pools k' :=
  update_of_ne h ..

@[simp] theorem put_allocations_self : (w.put k p i o).allocations i = o :=
  update_self ..

theorem put_allocations_of_ne {j : ι} (h : j ≠ i) :
    (w.put k p i o).allocations j = w.allocations j :=
  update_of_ne h ..

@[simp] theorem put_allocations :
    (w.put k p i o).allocations = update w.allocations i o := rfl

end

/-- An allocation over another pool has no share in this one. -/
theorem share_of_ne {M : Type} [Zero M] (m : PagedKVAllocation κ → M)
    {k k' : κ} {o : Option (PagedKVAllocation κ)}
    (hown : ∀ a, o = some a → a.pool = k) (hne : k' ≠ k) :
    share m k' o = 0 := by
  cases o with
  | none => rfl
  | some a =>
    have hpool : a.pool = k := hown a rfl
    simp only [share, hpool]
    rw [if_neg (Ne.symm hne)]

/-- A live allocation's share in its own pool. -/
theorem share_self {M : Type} [Zero M] (m : PagedKVAllocation κ → M)
    {k : κ} {a : PagedKVAllocation κ} (h : a.pool = k) :
    share m k (some a) = m a := by
  simp only [share, h, if_true]

omit [DecidableEq κ] in
/-- An allocation over another pool is bound to no row of this one. -/
theorem not_boundTo_of_ne {k k' : κ} {r : Nat} {o : Option (PagedKVAllocation κ)}
    (hown : ∀ a, o = some a → a.pool = k) (hne : k' ≠ k) :
    ¬ BoundTo o k' r := by
  rintro ⟨a, ha, hk', -⟩
  exact hne (hk'.symm.trans (hown a ha))

section

variable [Fintype ι] {w : PagedKV κ ι} {k : κ} {p : PagedKVPool} {i : ι}
  {o : Option (PagedKVAllocation κ)}

/-- The pool an exchange leaves alone keeps its invariant: the exchanged
handle had no part in it, before or after. -/
theorem PoolInv.exchange_other {k' : κ} (h : PoolInv w k')
    (he : Exchange k (w.pools k) p (w.allocations i) o) (hne : k' ≠ k) :
    PoolInv (w.put k p i o) k' := by
  have hpool := put_pools_of_ne w k p i o hne
  have hsum : ∀ {M : Type} [AddCommMonoid M] (m : PagedKVAllocation κ → M),
      ∑ j, share m k' (update w.allocations i o j)
        = ∑ j, share m k' (w.allocations j) := by
    intro M _ m
    refine total_update_same w.allocations (share m k') i o ?_
    rw [share_of_ne m he.own' hne, share_of_ne m he.own hne]
  have hbound : ∀ j r, BoundTo ((w.put k p i o).allocations j) k' r
      ↔ BoundTo (w.allocations j) k' r := by
    intro j r
    by_cases hj : j = i
    · subst hj
      rw [put_allocations_self]
      exact iff_of_false (not_boundTo_of_ne he.own' hne)
        (not_boundTo_of_ne he.own hne)
    · rw [put_allocations_of_ne w k p i o hj]
  constructor
  case free_sorted => rw [hpool]; exact h.free_sorted
  case pages_partition =>
    rw [hpool, put_allocations, hsum]
    exact h.pages_partition
  case mapped_eq => rw [hpool, put_allocations, hsum]; exact h.mapped_eq
  case entitled_eq =>
    rw [hpool, put_allocations, hsum]
    exact h.entitled_eq
  case entitled_le => rw [hpool]; exact h.entitled_le
  case mapped_le =>
    intro j a ha hk
    by_cases hj : j = i
    · subst hj
      rw [put_allocations_self] at ha
      exact absurd (hk.symm.trans (he.own' a ha)) hne
    · rw [put_allocations_of_ne w k p i o hj] at ha
      exact h.mapped_le j a ha hk
  case row_used =>
    intro r
    simp only [hpool, hbound]
    exact h.row_used r
  case row_lt =>
    intro j r hb
    rw [hpool]
    exact h.row_lt j r ((hbound j r).mp hb)
  case row_distinct =>
    intro j j' r hj hj'
    exact h.row_distinct j j' r ((hbound j r).mp hj) ((hbound j' r).mp hj')

omit [Fintype ι] in
/-- In the exchanged pool a row is bound by handle `j` after the exchange
as the exchanged handle says, and as before elsewhere. -/
private theorem boundTo_put (j : ι) (r : Nat) :
    BoundTo ((w.put k p i o).allocations j) k r
      ↔ (j = i ∧ BoundTo o k r)
        ∨ (j ≠ i ∧ BoundTo (w.allocations j) k r) := by
  by_cases hj : j = i
  · subst hj
    rw [put_allocations_self]
    simp
  · rw [put_allocations_of_ne w k p i o hj]
    simp [hj]

/-- The exchanged pool keeps its invariant. -/
theorem PoolInv.exchange_self (h : PoolInv w k)
    (he : Exchange k (w.pools k) p (w.allocations i) o) :
    PoolInv (w.put k p i o) k := by
  have htotal : ∀ {M : Type} [AddCommMonoid M] (m : PagedKVAllocation κ → M),
      ∑ j, share m k (update w.allocations i o j)
          + share m k (w.allocations i)
        = ∑ j, share m k (w.allocations j) + share m k o :=
    fun m => total_update w.allocations (share m k) i o
  constructor
  case free_sorted => rw [put_pools_self]; exact he.free_sorted
  case pages_partition =>
    rw [put_pools_self, put_allocations, he.spec_eq, ← h.pages_partition]
    have hmove := htotal pagesOf
    -- cancel the exchanged handle's own pages on both sides
    refine add_right_cancel (b := share pagesOf k (w.allocations i)) ?_
    calc
      _ = (p.freePageIds : Multiset Nat)
            + (∑ j, share pagesOf k (w.allocations j)
              + share pagesOf k o) := by rw [add_assoc, hmove]
      _ = ((p.freePageIds : Multiset Nat) + share pagesOf k o)
            + ∑ j, share pagesOf k (w.allocations j) := by ac_rfl
      _ = _ := by rw [he.pages]; ac_rfl
  case mapped_eq =>
    rw [put_pools_self, put_allocations]
    have hmove := htotal mappedPageCount
    have hlocal := he.mapped
    have hold := h.mapped_eq
    omega
  case entitled_eq =>
    rw [put_pools_self, put_allocations]
    have hmove := htotal pageEntitlement
    have hlocal := he.entitled
    have hold := h.entitled_eq
    omega
  case entitled_le =>
    rw [put_pools_self, he.spec_eq]
    exact he.entitled_le
  case mapped_le =>
    intro j a ha hk
    by_cases hj : j = i
    · subst hj
      rw [put_allocations_self] at ha
      exact he.mapped_le a ha
    · rw [put_allocations_of_ne w k p i o hj] at ha
      exact h.mapped_le j a ha hk
  case row_used =>
    intro r
    rw [put_pools_self, he.row_used r]
    simp only [boundTo_put]
    constructor
    · rintro (hb | ⟨hused, hnot⟩)
      · exact ⟨i, Or.inl ⟨rfl, hb⟩⟩
      · obtain ⟨j, hj⟩ := (h.row_used r).mp hused
        refine ⟨j, Or.inr ⟨?_, hj⟩⟩
        rintro rfl
        exact hnot hj
    · rintro ⟨j, ⟨-, hb⟩ | ⟨hne, hb⟩⟩
      · exact Or.inl hb
      · refine Or.inr ⟨(h.row_used r).mpr ⟨j, hb⟩, fun hi => hne ?_⟩
        exact h.row_distinct j i r hb hi
  case row_lt =>
    intro j r hb
    rw [put_pools_self, he.spec_eq]
    rcases boundTo_put j r |>.mp hb with ⟨-, hb⟩ | ⟨-, hb⟩
    · exact (he.row_fresh r hb).1
    · exact h.row_lt j r hb
  case row_distinct =>
    -- a row the exchanged handle gained was free, so no one else has it
    have hclash : ∀ j r, j ≠ i → BoundTo (w.allocations j) k r →
        ¬ BoundTo o k r := by
      intro j r hne hj ho
      rcases (he.row_fresh r ho).2 with hi | hfree
      · exact hne (h.row_distinct j i r hj hi)
      · rw [(h.row_used r).mpr ⟨j, hj⟩] at hfree
        exact absurd hfree (by decide)
    intro j j' r hj hj'
    rcases boundTo_put j r |>.mp hj with ⟨hji, ho⟩ | ⟨hne, hold⟩
    · rcases boundTo_put j' r |>.mp hj' with ⟨hji', -⟩ | ⟨hne', hold'⟩
      · exact hji.trans hji'.symm
      · exact absurd ho (hclash j' r hne' hold')
    · rcases boundTo_put j' r |>.mp hj' with ⟨-, ho'⟩ | ⟨-, hold'⟩
      · exact absurd ho' (hclash j r hne hold)
      · exact h.row_distinct j j' r hold hold'

/-- The exchange rule. -/
theorem Inv.exchange (h : Inv w)
    (he : Exchange k (w.pools k) p (w.allocations i) o) :
    Inv (w.put k p i o) := by
  intro k'
  by_cases hk : k' = k
  · subst hk
    exact (h k').exchange_self he
  · exact (h k').exchange_other he hk

end

-- ============ consequences

section

variable [Fintype ι] {w : PagedKV κ ι} {k : κ} {i : ι} {a : PagedKVAllocation κ}

omit [DecidableEq ι] in
/-- Free pages and mapped pages add up to the pool. -/
theorem PoolInv.free_add_mapped (h : PoolInv w k) :
    (w.pools k).freePageIds.length + (w.pools k).mappedPages
      = (w.pools k).spec.pageGroupCount := by
  have hcard := congrArg Multiset.card h.pages_partition
  rw [Multiset.card_add, Multiset.coe_card, Multiset.card_range,
    Multiset.card_sum] at hcard
  have hshare : ∀ j, card (share pagesOf k (w.allocations j))
      = share mappedPageCount k (w.allocations j) := by
    intro j
    cases w.allocations j with
    | none => rfl
    | some a =>
      by_cases hk : a.pool = k
      · simp [share, hk, pagesOf, mappedPageCount]
      · simp [share, hk]
  rw [sum_congr rfl (fun j _ => hshare j), ← h.mapped_eq] at hcard
  exact hcard

/-- The allocations' mapped pages fit in their entitlements, in total
and with any one allocation set aside. -/
theorem PoolInv.mapped_slack (h : PoolInv w k)
    (ha : w.allocations i = some a) (hk : a.pool = k) :
    (w.pools k).mappedPages + a.pageEntitlement
      ≤ (w.pools k).entitledPages + a.mappedPageCount := by
  have hle : ∀ j, j ∈ univ.erase i →
      share mappedPageCount k (w.allocations j)
        ≤ share pageEntitlement k (w.allocations j) := by
    intro j _
    cases hj : w.allocations j with
    | none => exact Nat.le_refl 0
    | some b =>
      by_cases hb : b.pool = k
      · rw [share_self _ hb, share_self _ hb]
        exact h.mapped_le j b hj hb
      · simp [share, hb]
  have hrest := sum_le_sum hle
  have hm : (w.pools k).mappedPages = a.mappedPageCount
      + ∑ j ∈ univ.erase i,
          share mappedPageCount k (w.allocations j) := by
    rw [h.mapped_eq, ← add_sum_erase _ _ (mem_univ i), ha, share_self _ hk]
  have he : (w.pools k).entitledPages = a.pageEntitlement
      + ∑ j ∈ univ.erase i,
          share pageEntitlement k (w.allocations j) := by
    rw [h.entitled_eq, ← add_sum_erase _ _ (mem_univ i), ha, share_self _ hk]
  omega

omit [DecidableEq ι] in
/-- One allocation's entitlement is part of the pool's. -/
theorem PoolInv.entitlement_le (h : PoolInv w k)
    (ha : w.allocations i = some a) (hk : a.pool = k) :
    a.pageEntitlement ≤ (w.pools k).entitledPages := by
  have hle := share_le_total w.allocations (share pageEntitlement k) i
  rw [ha, share_self _ hk, ← h.entitled_eq] at hle
  exact hle

omit [DecidableEq ι] in
/-- One allocation's mapped pages are part of the pool's. -/
theorem PoolInv.mapped_le_mapped (h : PoolInv w k)
    (ha : w.allocations i = some a) (hk : a.pool = k) :
    a.mappedPageCount ≤ (w.pools k).mappedPages := by
  have hle := share_le_total w.allocations (share mappedPageCount k) i
  rw [ha, share_self _ hk, ← h.mapped_eq] at hle
  exact hle

/-- The pages left free cover every unmapped entitlement. -/
theorem PoolInv.unmapped_le_free (h : PoolInv w k)
    (ha : w.allocations i = some a) (hk : a.pool = k) :
    a.pageEntitlement - a.mappedPageCount
      ≤ (w.pools k).freePageIds.length := by
  have hslack := h.mapped_slack ha hk
  have hfree := h.free_add_mapped
  have hent := h.entitled_le
  omega

/-- An allocation's pages are not free, and none of them twice. -/
theorem PoolInv.pages_nodup (h : PoolInv w k)
    (ha : w.allocations i = some a) (hk : a.pool = k) :
    ((w.pools k).freePageIds ++ a.pageIds).Nodup := by
  have hle : ((w.pools k).freePageIds : Multiset Nat) + pagesOf a
      ≤ Multiset.range (w.pools k).spec.pageGroupCount := by
    rw [← h.pages_partition]
    refine add_le_add_right ?_ _
    rw [← add_sum_erase _ _ (mem_univ i), ha, share_self _ hk]
    exact le_add_right _ _
  have hnodup := nodup_of_le hle (nodup_range _)
  unfold pagesOf at hnodup
  rw [coe_add] at hnodup
  exact coe_nodup.mp hnodup

end

end Ginfer.Pool.PagedKV
