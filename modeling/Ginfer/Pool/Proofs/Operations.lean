/-
Every pool operation keeps the invariant, whether it returns or throws.

Each primitive edit of a pool gets one specification lemma — what
`take_pages`, `return_pages`, the two entitlement edits and the two row
edits do to the bookkeeping when the invariant holds, so that no counter
wraps — and each operation is then one `Exchange` (Proofs/Accounting.lean)
or a sequence of them. `move` is the exception: it relabels handles, and
the invariant does not mention their names (`Inv.relabel`).

`step_keeps` collects them; Proofs/Pool.lean runs it over arbitrary call
sequences.
-/
import Mathlib.Logic.Equiv.Fintype
import Ginfer.Lib.Runs
import Ginfer.Pool.Proofs.Accounting

namespace Ginfer.Pool

open Ginfer.Lib PagedKVPool List Function

-- ============ the pool primitives

namespace PagedKVPool

variable {p p' : PagedKVPool} {count : Nat} {out : List Nat} {start : Nat}

/-- A run `run_at` finds fits in the free list. -/
theorem runAt_le {free : List Nat}
    (h : runAt free count start = true) : start + count ≤ free.length := by
  unfold runAt at h
  simp only [Bool.and_eq_true, decide_eq_true_eq] at h
  exact h.1

/-- So does the run `take_pages` selects. -/
theorem selectRun_le {free : List Nat} {preferred : Option Nat}
    (h : selectRun free count preferred = some start) :
    start + count ≤ free.length := by
  unfold selectRun at h
  simp only at h
  split at h
  · next s hs =>
    injection h with h
    subst h
    obtain ⟨page, -, hpage⟩ := Option.bind_eq_some_iff.mp hs
    split at hpage
    · next hrun =>
      injection hpage with hpage
      subst hpage
      simp only [Bool.and_eq_true] at hrun
      exact runAt_le hrun.2
    · cases hpage
  · exact runAt_le (List.find?_some h)

/-- All that `take_pages` can do with a positive count: some run of the
free list leaves it. -/
theorem takePages_run {preferred : Option Nat} {allocates : Bool}
    (h : p.takePages count preferred allocates = .ok (out, p'))
    (hcount : count ≠ 0) :
    ∃ start, start + count ≤ p.freePageIds.length
      ∧ (out, p') = p.extractRun start count := by
  unfold takePages at h
  rw [if_neg hcount] at h
  split at h
  · cases h
  next hroom =>
  split at h
  · cases h
  split at h
  · next selected hsel =>
    injection h with h
    exact ⟨selected, selectRun_le hsel, h.symm⟩
  · injection h with h
    exact ⟨0, by omega, h.symm⟩

/-- The free list a run leaves, with the run, is the free list it was
in. -/
theorem extractRun_perm (start count : Nat) :
    ((p.extractRun start count).2.freePageIds
      ++ (p.extractRun start count).1).Perm p.freePageIds := by
  unfold extractRun
  simp only
  have hsplit : p.freePageIds.take start
      ++ ((p.freePageIds.drop start).take count
        ++ p.freePageIds.drop (start + count)) = p.freePageIds := by
    rw [← drop_drop, take_append_drop, take_append_drop]
  rw [append_assoc]
  refine (List.Perm.append_left _ perm_append_comm).trans ?_
  rw [hsplit]

/-- What is left is a sublist, so a sorted list stays sorted. -/
theorem extractRun_sublist (start count : Nat) :
    (p.extractRun start count).2.freePageIds.Sublist p.freePageIds := by
  unfold extractRun
  simp only
  have hdrop : (p.freePageIds.drop (start + count)).Sublist
      (p.freePageIds.drop start) := by
    rw [← drop_drop]
    exact drop_sublist ..
  have happ := (List.Sublist.refl (p.freePageIds.take start)).append hdrop
  rwa [take_append_drop] at happ

/-- A run that fits has the length asked for. -/
theorem extractRun_length (h : start + count ≤ p.freePageIds.length) :
    (p.extractRun start count).1.length = count := by
  unfold extractRun
  simp only [length_take, length_drop]
  omega

/-- The free list after `return_pages`. -/
theorem returnPages_perm (pages : List Nat) :
    (p.returnPages pages).freePageIds.Perm (p.freePageIds ++ pages) := by
  unfold returnPages
  split
  · next hempty =>
    rw [isEmpty_iff.mp hempty, append_nil]
  · exact perm_insertionSort ..

/-- It is sorted again. -/
theorem returnPages_sorted {pages : List Nat}
    (hsorted : p.freePageIds.Pairwise (· < ·))
    (hnodup : (p.freePageIds ++ pages).Nodup) :
    (p.returnPages pages).freePageIds.Pairwise (· < ·) := by
  have hperm := returnPages_perm (p := p) pages
  have hnodup' := hperm.nodup_iff.mpr hnodup
  unfold returnPages at hnodup' ⊢
  split
  · exact hsorted
  · next hne =>
    rw [if_neg hne] at hnodup'
    have hle := pairwise_insertionSort (· ≤ ·) (p.freePageIds ++ pages)
    exact (hle.and hnodup').imp fun h => lt_of_le_of_ne h.1 h.2

/-- Everything `return_pages` does not edit. -/
theorem returnPages_books (pages : List Nat) :
    (p.returnPages pages).spec = p.spec
      ∧ (p.returnPages pages).rowInUse = p.rowInUse
      ∧ (p.returnPages pages).entitledPages = p.entitledPages
      ∧ (p.returnPages pages).blockTables = p.blockTables := by
  unfold returnPages
  split
  · exact ⟨rfl, rfl, rfl, rfl⟩
  · exact ⟨rfl, rfl, rfl, rfl⟩

/-- Its counter does not underflow while the pages were mapped. -/
theorem returnPages_mapped (pages : List Nat)
    (hle : pages.length ≤ p.mappedPages) (hfit : p.mappedPages < 2 ^ 32) :
    (p.returnPages pages).mappedPages = p.mappedPages - pages.length := by
  unfold returnPages
  split
  · next hempty =>
    rw [isEmpty_iff.mp hempty]
    rfl
  · exact u32Sub_eq hle hfit

/-- `replace_entitlement` does not wrap while the new total fits. -/
theorem replaceEntitlement_entitled (oldPages newPages : Nat)
    (hold : oldPages ≤ p.entitledPages) (hfit : p.entitledPages < 2 ^ 32)
    (hnew : p.entitledPages - oldPages + newPages < 2 ^ 32) :
    (p.replaceEntitlement oldPages newPages).entitledPages
      = p.entitledPages - oldPages + newPages := by
  unfold replaceEntitlement
  simp only
  rw [u32Sub_eq hold hfit, u32Add_eq hnew]

end PagedKVPool

-- ============ the exchanges

namespace PagedKV

variable {κ ι : Type} [DecidableEq κ] [DecidableEq ι] [Fintype ι]
variable {w : PagedKV κ ι} {i : ι} {a : PagedKVAllocation κ} {k : κ}

omit [DecidableEq κ] in
/-- A live allocation and its replacement agree on which rows are bound
when they name the same pool and row. -/
theorem boundTo_some_iff {r : Nat} :
    BoundTo (some a) k r ↔ a.pool = k ∧ a.boundRow = some r := by
  constructor
  · rintro ⟨b, hb, hk, hr⟩
    cases hb
    exact ⟨hk, hr⟩
  · rintro ⟨hk, hr⟩
    exact ⟨a, rfl, hk, hr⟩

omit [DecidableEq ι] in
/-- The pool's counters are far below the wrap. -/
theorem PoolInv.counters_fit (h : PoolInv w k) :
    (w.pools k).entitledPages < 2 ^ 31
      ∧ (w.pools k).mappedPages < 2 ^ 31 := by
  have hent := h.entitled_le
  have hfree := h.free_add_mapped
  have hfit := (w.pools k).spec.page_group_count_fits
  omega

omit [DecidableEq ι] in
/-- The row a handle is bound to is marked in use. -/
theorem PoolInv.row_inUse (h : PoolInv w a.pool)
    (ha : w.allocations i = some a) {r : Nat} (hr : a.boundRow = some r) :
    (w.pools a.pool).rowInUse r = true :=
  (h.row_used r).mpr ⟨i, a, ha, rfl, hr⟩

omit [DecidableEq ι] in
/-- An exchange that leaves the rows alone: the allocation stays over its
pool and bound as it was, and only pages and counts move. -/
theorem Exchange.of_row_kept {a' : PagedKVAllocation κ} {p' : PagedKVPool}
    (h : PoolInv w a.pool) (ha : w.allocations i = some a)
    (hpool : a'.pool = a.pool) (hbound : a'.boundRow = a.boundRow)
    (hrow : p'.rowInUse = (w.pools a.pool).rowInUse)
    (hspec : p'.spec = (w.pools a.pool).spec)
    (hsorted : p'.freePageIds.Pairwise (· < ·))
    (hpages : (p'.freePageIds ++ a'.pageIds).Perm
      ((w.pools a.pool).freePageIds ++ a.pageIds))
    (hmap : p'.mappedPages + a.mappedPageCount
      = (w.pools a.pool).mappedPages + a'.mappedPageCount)
    (hent : p'.entitledPages + a.pageEntitlement
      = (w.pools a.pool).entitledPages + a'.pageEntitlement)
    (hle : p'.entitledPages ≤ (w.pools a.pool).spec.pageGroupCount)
    (hmapped : a'.mappedPageCount ≤ a'.pageEntitlement) :
    Exchange a.pool (w.pools a.pool) p' (w.allocations i) (some a') := by
  have hsame : ∀ r, BoundTo (some a') a.pool r
      ↔ BoundTo (some a) a.pool r := by
    intro r
    rw [boundTo_some_iff, boundTo_some_iff, hbound, hpool]
  rw [ha]
  constructor
  case own => intro b hb; cases hb; rfl
  case own' => intro b hb; cases hb; exact hpool
  case spec_eq => exact hspec
  case free_sorted => exact hsorted
  case pages =>
    rw [share_self _ hpool, share_self _ rfl]
    exact Multiset.coe_eq_coe.mpr hpages
  case mapped => rw [share_self _ hpool, share_self _ rfl]; exact hmap
  case entitled => rw [share_self _ hpool, share_self _ rfl]; exact hent
  case entitled_le => exact hle
  case mapped_le => intro b hb; cases hb; exact hmapped
  case row_used =>
    intro r
    rw [hrow, hsame r]
    constructor
    · intro hused
      by_cases hb : BoundTo (some a) a.pool r
      · exact Or.inl hb
      · exact Or.inr ⟨hused, hb⟩
    · rintro (hb | ⟨hused, -⟩)
      · exact h.row_inUse ha (boundTo_some_iff.mp hb).2
      · exact hused
  case row_fresh =>
    intro r hb
    have hold := (hsame r).mp hb
    exact ⟨h.row_lt i r (ha ▸ hold), Or.inl hold⟩

/-- Resizing an entitlement to `n` pages, at least those mapped and no
more than the pool has room for. -/
theorem Exchange.of_entitlement {n : Nat} (h : PoolInv w a.pool)
    (ha : w.allocations i = some a) (hmapped : a.mappedPageCount ≤ n)
    (hfits : (w.pools a.pool).entitledPages - a.pageEntitlement + n
      ≤ (w.pools a.pool).spec.pageGroupCount) :
    Exchange a.pool (w.pools a.pool)
      ((w.pools a.pool).replaceEntitlement a.pageEntitlement n)
      (w.allocations i) (some { a with pageEntitlement := n }) := by
  have hold := h.entitlement_le ha rfl
  have hcount := h.counters_fit
  have hgroups := (w.pools a.pool).spec.page_group_count_fits
  have hent := replaceEntitlement_entitled
    (p := w.pools a.pool) a.pageEntitlement n
    hold (by omega) (by omega)
  refine Exchange.of_row_kept h ha rfl rfl rfl rfl h.free_sorted
    (List.Perm.refl _) rfl ?_ (hent ▸ hfits) hmapped
  rw [hent]
  show _ = (w.pools a.pool).entitledPages + n
  omega

/-- Giving the pages `a.pageIds.drop n` back. -/
theorem Exchange.of_trim {n : Nat} (h : PoolInv w a.pool)
    (ha : w.allocations i = some a) (hn : n ≤ a.mappedPageCount) :
    Exchange a.pool (w.pools a.pool)
      ((w.pools a.pool).returnPages (a.pageIds.drop n))
      (w.allocations i) (some { a with pageIds := a.pageIds.take n }) := by
  have hmapped := h.mapped_le i a ha rfl
  have hin := h.mapped_le_mapped ha rfl
  have hfit := h.counters_fit
  have hlen : (a.pageIds.drop n).length = a.mappedPageCount - n :=
    length_drop ..
  have htake : (a.pageIds.take n).length = n := length_take_of_le hn
  have hret := returnPages_mapped (p := w.pools a.pool)
    (a.pageIds.drop n) (by omega) (by omega)
  obtain ⟨hspec, hrow, hent, -⟩ := returnPages_books
    (p := w.pools a.pool) (a.pageIds.drop n)
  have hsub : ((w.pools a.pool).freePageIds ++ a.pageIds.drop n).Nodup :=
    (h.pages_nodup ha rfl).sublist
      ((List.Sublist.refl _).append (drop_sublist ..))
  refine Exchange.of_row_kept h ha rfl rfl hrow hspec
    (returnPages_sorted h.free_sorted hsub) ?_ ?_ ?_
    (hent ▸ h.entitled_le) ?_
  · refine ((returnPages_perm _).append_right _).trans ?_
    rw [append_assoc]
    refine List.Perm.append_left _ ?_
    refine perm_append_comm.trans ?_
    rw [take_append_drop]
  · show _ = (w.pools a.pool).mappedPages + (a.pageIds.take n).length
    rw [hret, hlen, htake]
    omega
  · rw [hent]
  · show (a.pageIds.take n).length ≤ a.pageEntitlement
    rw [htake]
    omega

-- ============ the operations

/-- `reserve` into an empty handle. -/
theorem reserve_keeps (k : κ) (pages : Nat) (allocates : Bool)
    (h : Inv w) (hempty : w.allocations i = none) :
    Inv (w.reserve i k pages allocates).state := by
  unfold reserve
  split
  · exact h
  next hcan =>
  split
  · exact h
  have hk := h k
  have hgroups := (w.pools k).spec.page_group_count_fits
  have hent := hk.entitled_le
  have hroom : (w.pools k).entitledPages + pages
      ≤ (w.pools k).spec.pageGroupCount := by
    simp only [canReserve, Bool.not_eq_true',
      Bool.not_eq_false, Bool.and_eq_true, decide_eq_true_eq] at hcan
    rw [u32Sub_eq hent (by omega)] at hcan
    omega
  have hadd : u32Add (w.pools k).entitledPages pages
      = (w.pools k).entitledPages + pages :=
    u32Add_eq (by omega)
  refine h.exchange ?_
  rw [hempty]
  constructor
  case own => intro b hb; cases hb
  case own' => intro b hb; cases hb; rfl
  case spec_eq => rfl
  case free_sorted => exact hk.free_sorted
  case pages => simp [share, pagesOf, addEntitlement]
  case mapped =>
    simp [share, PagedKVAllocation.mappedPageCount, addEntitlement]
  case entitled => simpa [share, addEntitlement] using hadd
  case entitled_le => exact hadd.trans_le hroom
  case mapped_le => intro b hb; cases hb; exact Nat.zero_le _
  case row_used =>
    intro r
    constructor
    · intro hused
      refine Or.inr ⟨hused, ?_⟩
      rintro ⟨b, hb, -⟩
      cases hb
    · rintro (hb | ⟨hused, -⟩)
      · exact absurd (boundTo_some_iff.mp hb).2 (by simp)
      · exact hused
  case row_fresh =>
    intro r hb
    exact absurd (boundTo_some_iff.mp hb).2 (by simp)

variable {pages : Nat} {allocates : Bool}

/-- `set_page_entitlement`. -/
theorem setPageEntitlement_keeps
    (h : Inv w) : Inv (w.setPageEntitlement i pages allocates).state := by
  unfold setPageEntitlement
  split
  · exact h
  next a ha =>
  split
  · exact h
  next hmapped =>
  split
  · exact h
  next hcan =>
  split
  · exact h
  have hk := h a.pool
  have hold := hk.entitlement_le ha rfl
  have hent := hk.entitled_le
  have hgroups := (w.pools a.pool).spec.page_group_count_fits
  refine h.exchange (Exchange.of_entitlement hk ha (by omega) ?_)
  simp only [canReplaceEntitlement, Bool.not_eq_true',
    Bool.not_eq_false, Bool.and_eq_true, decide_eq_true_eq] at hcan
  rw [u32Sub_eq hold (by omega), u32Sub_eq (by omega) (by omega)] at hcan
  omega

/-- `cancel_unmapped_entitlement`. -/
theorem cancelUnmappedEntitlement_keeps (h : Inv w) :
    Inv (w.cancelUnmappedEntitlement i) := by
  unfold cancelUnmappedEntitlement
  split
  · exact h
  next a ha =>
  have hk := h a.pool
  have hold := hk.entitlement_le ha rfl
  have hent := hk.entitled_le
  have hmapped := hk.mapped_le i a ha rfl
  exact h.exchange (Exchange.of_entitlement hk ha (Nat.le_refl _) (by omega))

/-- `publish_range` edits only the device block tables. -/
theorem publish_keeps {firstPage : Nat} (h : Inv w) :
    Inv (w.publish i firstPage) := by
  unfold publish
  split
  · exact h
  next a ha =>
  split
  · exact h
  split
  · exact h
  have hk := h a.pool
  exact h.exchange (Exchange.of_row_kept hk ha rfl rfl rfl rfl
    hk.free_sorted (List.Perm.refl _) rfl rfl hk.entitled_le
    (hk.mapped_le i a ha rfl))

/-- `materialize_pages`: the pages taken leave the free list and join the
allocation. -/
theorem materializePages_keeps {allocates : Bool}
    (h : Inv w) : Inv (w.materializePages i pages allocates).state := by
  unfold materializePages
  split
  · exact h
  next a ha =>
  split
  · exact h
  next hext =>
  split
  · exact h
  next hcount =>
  split
  · exact h
  next acquired p htake =>
  refine publish_keeps (h.exchange ?_)
  have hk := h a.pool
  obtain ⟨start, hfit, hrun⟩ := takePages_run htake hcount
  have hlen := extractRun_length hfit
  have hperm := extractRun_perm (p := w.pools a.pool) start
    (pages - a.mappedPageCount)
  have hsub := extractRun_sublist (p := w.pools a.pool) start
    (pages - a.mappedPageCount)
  have hgroups := (w.pools a.pool).spec.page_group_count_fits
  have hfree := hk.free_add_mapped
  have hadd := u32Add_eq (a := (w.pools a.pool).mappedPages)
    (b := pages - a.mappedPageCount) (by omega)
  rw [← hrun] at hlen hperm hsub
  simp only at hlen hperm hsub
  have hp : p = ((w.pools a.pool).extractRun start
      (pages - a.mappedPageCount)).2 := congrArg Prod.snd hrun
  have hcount' : (a.pageIds ++ acquired).length
      = a.mappedPageCount + (pages - a.mappedPageCount) := by
    rw [length_append, hlen]
    rfl
  refine Exchange.of_row_kept hk ha rfl rfl ?_ ?_
    (hk.free_sorted.sublist hsub) ?_ ?_ ?_ ?_ ?_
  · rw [hp]; rfl
  · rw [hp]; rfl
  · refine (List.Perm.append_left _ perm_append_comm).trans ?_
    rw [← append_assoc]
    exact hperm.append_right _
  · have hmap : p.mappedPages = u32Add (w.pools a.pool).mappedPages
        (pages - a.mappedPageCount) := by rw [hp]; rfl
    show _ = (w.pools a.pool).mappedPages + (a.pageIds ++ acquired).length
    rw [hmap, hadd, hcount']
    omega
  · rw [hp]; rfl
  · rw [hp]; exact hk.entitled_le
  · show (a.pageIds ++ acquired).length ≤ a.pageEntitlement
    rw [hcount']
    omega

/-- `trim_pages`. -/
theorem trimPages_keeps (h : Inv w) : Inv (w.trimPages i pages).state := by
  unfold trimPages
  split
  · exact h
  next a ha =>
  split
  · exact h
  next hle =>
  split
  · exact h
  exact h.exchange (Exchange.of_trim (h a.pool) ha (by omega))

omit [DecidableEq ι] in
/-- An exchange that only moves a row: the pool's bitmap and the
allocation's binding change together. -/
theorem Exchange.of_row {a' : PagedKVAllocation κ} {p' : PagedKVPool}
    (h : PoolInv w a.pool) (ha : w.allocations i = some a)
    (ha' : a' = { a with boundRow := a'.boundRow })
    (hp' : p' = { w.pools a.pool with rowInUse := p'.rowInUse })
    (hused : ∀ r, p'.rowInUse r = true ↔ BoundTo (some a') a.pool r
      ∨ ((w.pools a.pool).rowInUse r = true ∧ ¬ BoundTo (some a) a.pool r))
    (hfresh : ∀ r, BoundTo (some a') a.pool r →
      r < (w.pools a.pool).spec.tableRows
        ∧ (BoundTo (some a) a.pool r ∨ (w.pools a.pool).rowInUse r = false)) :
    Exchange a.pool (w.pools a.pool) p' (w.allocations i) (some a') := by
  have hpool : a'.pool = a.pool := by rw [ha']
  rw [ha]
  constructor
  case own => intro b hb; cases hb; rfl
  case own' => intro b hb; cases hb; exact hpool
  case spec_eq => rw [hp']
  case free_sorted => rw [hp']; exact h.free_sorted
  case pages =>
    rw [share_self _ hpool, share_self _ rfl, ha', hp']
    rfl
  case mapped =>
    rw [share_self _ hpool, share_self _ rfl, ha', hp']
    rfl
  case entitled =>
    rw [share_self _ hpool, share_self _ rfl, ha', hp']
  case entitled_le => rw [hp']; exact h.entitled_le
  case mapped_le =>
    intro b hb
    cases hb
    rw [ha']
    exact h.mapped_le i a ha rfl
  case row_used => exact hused
  case row_fresh => exact hfresh

/-- `bind_row`: the row it takes was free and in range. -/
theorem bindRow_keeps {row : Int} (h : Inv w) :
    Inv (w.bindRow i row).state := by
  unfold bindRow
  split
  · exact h
  next a ha =>
  split
  · exact h
  next hunbound =>
  split
  · exact h
  next r p hacquire =>
  unfold acquireRow at hacquire
  split at hacquire
  · cases hacquire
  next hrange =>
  split at hacquire
  · cases hacquire
  next hfree =>
  cases hacquire
  have hnone : a.boundRow = none := by
    simpa using hunbound
  have hnot : ∀ r, ¬ BoundTo (some a) a.pool r := by
    intro r hb
    rw [boundTo_some_iff, hnone] at hb
    exact absurd hb.2 (by simp)
  refine publish_keeps (h.exchange (Exchange.of_row (h a.pool) ha rfl rfl ?_ ?_))
  · intro r
    rw [boundTo_some_iff]
    simp only [hnot, not_false_eq_true, and_true, true_and, Option.some.injEq]
    by_cases hr : r = row.toNat
    · subst hr
      simp
    · rw [update_of_ne hr]
      simp [Ne.symm hr]
  · intro r hb
    rw [boundTo_some_iff] at hb
    simp only [true_and, Option.some.injEq] at hb
    subst hb
    refine ⟨by omega, Or.inr ?_⟩
    simpa using hfree

/-- `unbind_row`. -/
theorem unbindRow_keeps (h : Inv w) : Inv (w.unbindRow i) := by
  unfold unbindRow
  split
  · exact h
  next a ha =>
  split
  · exact h
  next row hrow =>
  have hnot : ∀ r, ¬ BoundTo (some { a with boundRow := none }) a.pool r := by
    intro r hb
    exact absurd (boundTo_some_iff.mp hb).2 (by simp)
  refine h.exchange (Exchange.of_row (h a.pool) ha rfl rfl ?_ ?_)
  · intro r
    simp only [hnot, false_or]
    rw [boundTo_some_iff, hrow]
    simp only [releaseRow, true_and, Option.some.injEq]
    by_cases hr : r = row
    · subst hr
      simp
    · rw [update_of_ne hr]
      simp [Ne.symm hr]
  · intro r hb
    exact absurd hb (hnot r)

omit [Fintype ι] in
/-- After `unbind_row` the handle is bound to nothing. -/
theorem unbindRow_boundRow (h : (w.unbindRow i).allocations i = some a) :
    a.boundRow = none := by
  unfold unbindRow at h
  split at h
  · next hnone =>
    rw [hnone] at h
    cases h
  · next b hb =>
    split at h
    · next hrow =>
      rw [hb] at h
      cases h
      exact hrow
    · rw [put_allocations_self] at h
      cases h
      rfl

/-- `release`: the handle leaves the pool with everything it held. -/
theorem release_keeps (h : Inv w) : Inv (w.release i) := by
  have hunbound := unbindRow_keeps (i := i) h
  unfold release giveBack
  split
  · exact hunbound
  next a ha =>
  have hnone := unbindRow_boundRow ha
  have hk := hunbound a.pool
  have hin := hk.mapped_le_mapped ha rfl
  have hold := hk.entitlement_le ha rfl
  have hfit := hk.counters_fit
  obtain ⟨hspec, hrow, hent, -⟩ := returnPages_books
    (p := (w.unbindRow i).pools a.pool) a.pageIds
  have hret := returnPages_mapped
    (p := (w.unbindRow i).pools a.pool) a.pageIds hin
    (by omega)
  have hrep := replaceEntitlement_entitled
    (p := ((w.unbindRow i).pools a.pool).returnPages a.pageIds)
    a.pageEntitlement 0
    (by rw [hent]; exact hold) (by rw [hent]; omega)
    (by rw [hent]; omega)
  have hnot : ∀ r, ¬ BoundTo (some a) a.pool r := by
    intro r hb
    rw [boundTo_some_iff, hnone] at hb
    exact absurd hb.2 (by simp)
  refine hunbound.exchange ?_
  rw [ha]
  constructor
  case own => intro b hb; cases hb; rfl
  case own' => intro b hb; cases hb
  case spec_eq => exact hspec
  case free_sorted =>
    exact returnPages_sorted hk.free_sorted (hk.pages_nodup ha rfl)
  case pages =>
    rw [share_self _ rfl]
    show _ + 0 = _
    rw [add_zero]
    exact Multiset.coe_eq_coe.mpr (returnPages_perm _)
  case mapped =>
    rw [share_self _ rfl]
    show (returnPages _ _).mappedPages + _ = _ + 0
    rw [hret]
    show _ - a.mappedPageCount + a.mappedPageCount = _
    omega
  case entitled =>
    rw [share_self _ rfl, hrep, hent]
    show _ = _ + 0
    omega
  case entitled_le =>
    have hle := hk.entitled_le
    rw [hrep, hent]
    omega
  case mapped_le => intro b hb; cases hb
  case row_used =>
    intro r
    show (returnPages _ _).rowInUse r = true ↔ _
    rw [hrow]
    constructor
    · intro hused
      exact Or.inr ⟨hused, hnot r⟩
    · rintro (⟨b, hb, -⟩ | ⟨hused, -⟩)
      · cases hb
      · exact hused
  case row_fresh =>
    rintro r ⟨b, hb, -⟩
    cases hb

omit [DecidableEq ι] in
/-- Renaming handles keeps the invariant. -/
theorem Inv.relabel (h : Inv w) (e : ι ≃ ι) :
    Inv { w with allocations := fun j => w.allocations (e j) } := by
  intro k
  have hk := h k
  have hsum : ∀ {M : Type} [AddCommMonoid M] (m : PagedKVAllocation κ → M),
      ∑ j, share m k (w.allocations (e j)) = ∑ j, share m k (w.allocations j) :=
    fun m => Equiv.sum_comp e (fun j => share m k (w.allocations j))
  constructor
  case free_sorted => exact hk.free_sorted
  case pages_partition => rw [hsum]; exact hk.pages_partition
  case mapped_eq => rw [hsum]; exact hk.mapped_eq
  case entitled_eq => rw [hsum]; exact hk.entitled_eq
  case entitled_le => exact hk.entitled_le
  case mapped_le => intro j a ha; exact hk.mapped_le (e j) a ha
  case row_used =>
    intro r
    rw [hk.row_used r]
    constructor
    · rintro ⟨j, hj⟩
      exact ⟨e.symm j, by simpa using hj⟩
    · rintro ⟨j, hj⟩
      exact ⟨e j, hj⟩
  case row_lt => intro j r hb; exact hk.row_lt (e j) r hb
  case row_distinct =>
    intro j j' r hj hj'
    exact e.injective (hk.row_distinct (e j) (e j') r hj hj')

omit [Fintype ι] in
/-- `unbind_row` touches no other handle. -/
theorem unbindRow_allocations_of_ne {j : ι} (hne : j ≠ i) :
    (w.unbindRow i).allocations j = w.allocations j := by
  unfold unbindRow
  split
  · rfl
  split
  · rfl
  exact put_allocations_of_ne _ _ _ _ _ hne

omit [Fintype ι] in
/-- `release` empties its handle and touches no other. -/
theorem release_allocations :
    (w.release i).allocations = update w.allocations i none := by
  funext j
  unfold release giveBack
  by_cases hj : j = i
  · subst hj
    rw [update_self]
    split
    · next hnone => exact hnone
    · exact put_allocations_self ..
  · rw [update_of_ne hj]
    split
    · exact unbindRow_allocations_of_ne hj
    · rw [put_allocations_of_ne _ _ _ _ _ hj]
      exact unbindRow_allocations_of_ne hj

/-- `move`: with the target released, the two handles trade names. -/
theorem move_keeps {dst src : ι} (h : Inv w) : Inv (w.move dst src) := by
  unfold move
  split
  · exact h
  next hne =>
  have hrelabel := (release_keeps (i := dst) h).relabel (Equiv.swap dst src)
  have hswap : (fun j => (w.release dst).allocations (Equiv.swap dst src j))
      = update (update (w.release dst).allocations dst
          (w.allocations src)) src none := by
    funext j
    rw [release_allocations]
    by_cases hsrc : j = src
    · subst hsrc
      simp
    · by_cases hdst : j = dst
      · subst hdst
        simp [Ne.symm hne, hne]
      · rw [Equiv.swap_apply_of_ne_of_ne hdst hsrc]
        simp [hsrc, hdst]
  rw [hswap] at hrelabel
  exact hrelabel

-- ============ the bundles

omit [Fintype ι] in
/-- `reserve` touches no other handle. -/
theorem reserve_allocations_of_ne {j : ι} (hne : j ≠ i) :
    (w.reserve i k pages allocates).state.allocations j
      = w.allocations j := by
  unfold reserve
  split
  · rfl
  split
  · rfl
  exact put_allocations_of_ne _ _ _ _ _ hne

/-- The reservation loop keeps the invariant through its returns and its
unwinding: the handles still to be filled are empty throughout. -/
theorem reserveAll_keeps :
    ∀ (rs : List (PagedKVReservation κ ι)) (w : PagedKV κ ι), Inv w →
      (rs.map (·.handle)).Nodup →
      (∀ r ∈ rs, w.allocations r.handle = none) →
      Inv (reserveAll rs w).state := by
  intro rs
  induction rs with
  | nil =>
    intro w h _ _
    exact h
  | cons r rest ih =>
    intro w h hnodup hempty
    rw [map_cons, nodup_cons] at hnodup
    obtain ⟨hfresh, hnodup⟩ := hnodup
    unfold reserveAll
    split
    · exact h
    next k _ =>
    have hreserve := reserve_keeps k r.pageEntitlement r.allocates h
      (hempty r mem_cons_self)
    have hothers : ∀ r' ∈ rest,
        (w.reserve r.handle k r.pageEntitlement
          r.allocates).state.allocations r'.handle = none := by
      intro r' hr'
      rw [reserve_allocations_of_ne]
      · exact hempty r' (mem_cons_of_mem _ hr')
      · intro heq
        exact hfresh (heq ▸ mem_map_of_mem hr')
    split
    · next e w' heq =>
      rw [heq] at hreserve
      exact hreserve
    next w' heq =>
    rw [heq] at hreserve hothers
    have hrest := ih w' hreserve hnodup hothers
    split
    · next w'' heq' =>
      rw [heq'] at hrest
      exact hrest
    · next e w'' heq' =>
      rw [heq'] at hrest
      exact release_keeps hrest

/-- `reserve_paged_kv_bundle`. -/
theorem reservePagedKVBundle_keeps
    {rs : List (PagedKVReservation κ ι)} (h : Inv w)
    (hnodup : (rs.map (·.handle)).Nodup)
    (hempty : ∀ r ∈ rs, w.allocations r.handle = none) :
    Inv (w.reservePagedKVBundle rs allocates).state := by
  unfold reservePagedKVBundle
  split
  · exact h
  split
  · exact h
  split
  · exact h
  exact reserveAll_keeps rs w h hnodup hempty

/-- `resize_paged_kv_bundle`. -/
theorem resizePagedKVBundle_keeps {changes : List (PagedKVResize ι)} (h : Inv w) :
    Inv (w.resizePagedKVBundle changes allocates).state := by
  unfold resizePagedKVBundle
  split
  · exact h
  split
  · exact h
  refine Outcome.forEach_keeps ?_ w h
  intro c _ w' hw'
  unfold applyResize
  split
  · exact hw'
  exact Outcome.andThen_keeps (trimPages_keeps hw')
    fun _ hs => setPageEntitlement_keeps hs

-- ============ the runs

/-- One call keeps the invariant, returned or thrown. -/
theorem step_keeps {op : Op κ ι} {w' : PagedKV κ ι}
    (hstep : w.step op = some w') (h : Inv w) : Inv w' := by
  unfold step at hstep
  obtain ⟨out, happly, rfl⟩ := Option.map_eq_some_iff.mp hstep
  cases op with
  | reserve i k pages allocates =>
    simp only [apply] at happly
    split at happly
    · cases happly
    next hempty =>
    cases happly
    exact reserve_keeps k pages allocates h (by simpa using hempty)
  | setPageEntitlement i pages allocates =>
    cases happly
    exact setPageEntitlement_keeps h
  | cancelUnmappedEntitlement i =>
    cases happly
    exact cancelUnmappedEntitlement_keeps h
  | materializePages i pages allocates =>
    cases happly
    exact materializePages_keeps h
  | materializeTokens i tokens allocates =>
    cases happly
    exact materializePages_keeps h
  | trimPages i pages =>
    cases happly
    exact trimPages_keeps h
  | trimTokens i tokens =>
    cases happly
    exact trimPages_keeps h
  | bindRow i row =>
    cases happly
    exact bindRow_keeps h
  | unbindRow i =>
    cases happly
    exact unbindRow_keeps h
  | release i =>
    cases happly
    exact release_keeps h
  | move dst src =>
    cases happly
    exact move_keeps h
  | reserveBundle reservations allocates =>
    simp only [apply] at happly
    split at happly
    · next henabled =>
      cases happly
      exact reservePagedKVBundle_keeps h henabled.1 henabled.2
    · cases happly
  | resizeBundle changes allocates =>
    cases happly
    exact resizePagedKVBundle_keeps h

omit [DecidableEq ι] in
/-- Fresh pools satisfy the invariant. -/
theorem init_inv (specs : κ → PagedKVPoolSpec) (tables : κ → Nat → Nat → Nat) :
    Inv (init specs tables : PagedKV κ ι) := by
  intro k
  have hnone : ∀ j r, ¬ BoundTo
      ((init specs tables : PagedKV κ ι).allocations j) k r := by
    rintro j r ⟨a, ha, -⟩
    cases ha
  constructor
  case free_sorted => exact pairwise_lt_range
  case pages_partition =>
    simp only [init, share, Finset.sum_const_zero, add_zero]
    rfl
  case mapped_eq => simp [init, share, make]
  case entitled_eq => simp [init, share, make]
  case entitled_le => exact Nat.zero_le _
  case mapped_le => intro j a ha; cases ha
  case row_used =>
    intro r
    refine iff_of_false (by simp [init, make]) ?_
    rintro ⟨j, hj⟩
    exact hnone j r hj
  case row_lt => intro j r hb; exact absurd hb (hnone j r)
  case row_distinct => intro j j' r hb; exact absurd hb (hnone j r)

end PagedKV

end Ginfer.Pool
