/-
The paged KV pool and its allocations (core/paged_kv_cache.{h,cpp}).

# What is modelled

A pool owns `page_group_count` physical page groups and hands them to
allocations. Its bookkeeping is redundant on purpose — a sorted free
list, a count of mapped pages, a count of entitled pages, a bitmap of
bound block-table rows — and every operation of an allocation edits
several of them. The model keeps each piece under the source's name and
edits it where the source does.

An allocation object is a handle `i : ι` of the host program; a pool is a
`k : κ`. `PagedKV κ ι` is the store the handles point into. An allocation
whose `pool_` is null — default-constructed, moved from, or released —
has no pages, no entitlement and no row on every path of the source, so
it is `none` here and the live ones carry their pool.

Page ids, counts and rows are `Nat`; the `-1` the source uses for "no
row" and "no preference" is `none`. The two `std::uint32_t` counters wrap
explicitly (Lib/Words.lean). The storage planes are not here: nothing in
this bookkeeping reads them.

# Throws

One primitive can fail underneath an operation and be thrown: a host
allocation (`std::vector::reserve`). Each operation that makes one takes
whether it succeeds, and what it had already written when it failed stays
written (Lib/Outcome.lean). The device copy of `publish_range` is under
`CUDA_CHECK`, which ends the process when it fails: no state follows it.
-/
import Ginfer.Lib.Outcome
import Ginfer.Lib.Words

namespace Ginfer.Pool

open Ginfer.Lib

-- ============ the pool

/-- `kPagedKVPageSize`. -/
def pagedKVPageSize : Nat := 64

/-- `pages_for_tokens`: the pages covering `tokens` positions. -/
def pagesForTokens (tokens : Nat) : Nat :=
  if tokens = 0 then 0 else 1 + (tokens - 1) / pagedKVPageSize

/-- The bookkeeping half of `PagedKVPoolSpec`, with the bounds
`plan_paged_kv_pool` checks (`checked_i32` and the row count) before a
pool can exist. -/
structure PagedKVPoolSpec where
  pageGroupCount : Nat
  logicalPageCapacity : Nat
  tableRows : Nat
  page_group_count_pos : 0 < pageGroupCount
  page_group_count_fits : pageGroupCount < 2 ^ 31
  logical_page_capacity_pos : 0 < logicalPageCapacity
  logical_page_capacity_fits : logicalPageCapacity < 2 ^ 31
  table_rows_pos : 0 < tableRows
  table_rows_fits : tableRows < 2 ^ 31

/-- `PagedKVPool`: the free list, the row bitmap, the two counters, and
the device block tables (`row`, then logical block, to page id). -/
structure PagedKVPool where
  spec : PagedKVPoolSpec
  freePageIds : List Nat
  rowInUse : Nat → Bool
  entitledPages : Nat
  mappedPages : Nat
  blockTables : Nat → Nat → Nat

namespace PagedKVPool

/-- The pool the constructor builds: every page free, no row bound. The
block tables are whatever the device memory held. -/
def make (spec : PagedKVPoolSpec) (tables : Nat → Nat → Nat) :
    PagedKVPool where
  spec := spec
  freePageIds := List.range spec.pageGroupCount
  rowInUse := fun _ => false
  entitledPages := 0
  mappedPages := 0
  blockTables := tables

/-- `can_reserve`. -/
def canReserve (p : PagedKVPool) (pageEntitlement : Nat) : Bool :=
  pageEntitlement != 0 && decide (pageEntitlement ≤ p.spec.logicalPageCapacity)
    && decide (pageEntitlement ≤ u32Sub p.spec.pageGroupCount p.entitledPages)

/-- `can_replace_entitlement`. -/
def canReplaceEntitlement (p : PagedKVPool) (oldPages newPages : Nat) :
    Bool :=
  decide (oldPages ≤ p.entitledPages)
    && decide (newPages ≤ p.spec.logicalPageCapacity)
    && decide (newPages ≤ u32Sub p.spec.pageGroupCount
        (u32Sub p.entitledPages oldPages))

/-- The `run_at` closure of `take_pages`: `count` consecutive page ids
stand in the free list from index `start` on. -/
def runAt (free : List Nat) (count start : Nat) : Bool :=
  decide (start + count ≤ free.length)
    && (List.range' 1 (count - 1)).all fun offset =>
        free.getD (start + offset) 0 == free.getD start 0 + offset

/-- `std::lower_bound` on the (sorted) free list. -/
def lowerBound (free : List Nat) (page : Nat) : Nat :=
  free.findIdx fun p => decide (page ≤ p)

/-- The start `take_pages` selects: the run that continues the
allocation's last page when it is free, else the first run of `count`
pages, else none. -/
def selectRun (free : List Nat) (count : Nat)
    (preferredFirst : Option Nat) : Option Nat :=
  let preferred := preferredFirst.bind fun page =>
    let start := lowerBound free page
    if free[start]? = some page && runAt free count start
    then some start else none
  match preferred with
  | some start => some start
  | none =>
    (List.range (free.length + 1 - count)).find? (runAt free count)

/-- The end of `take_pages`: the `count` pages from index `start` on leave
the free list. -/
def extractRun (p : PagedKVPool) (start count : Nat) : List Nat × PagedKVPool :=
  ((p.freePageIds.drop start).take count,
    { p with
      freePageIds :=
        p.freePageIds.take start ++ p.freePageIds.drop (start + count)
      mappedPages := u32Add p.mappedPages count })

/-- `take_pages`: the selected run, or the first `count` free pages when
there is no run of that length. -/
def takePages (p : PagedKVPool) (count : Nat)
    (preferredFirst : Option Nat) (allocates : Bool) :
    Except Exception (List Nat × PagedKVPool) :=
  if count = 0 then .ok ([], p)
  else if p.freePageIds.length < count then
    .error (.logicError "Paged KV entitlement could not be materialized")
  else if !allocates then .error .badAlloc
  else
    match selectRun p.freePageIds count preferredFirst with
    | some selected => .ok (p.extractRun selected count)
    | none => .ok (p.extractRun 0 count)

/-- `return_pages`: append and re-sort. -/
def returnPages (p : PagedKVPool) (pages : List Nat) : PagedKVPool :=
  if pages.isEmpty then p
  else
    { p with
      freePageIds := (p.freePageIds ++ pages).insertionSort (· ≤ ·)
      mappedPages := u32Sub p.mappedPages pages.length }

/-- `add_entitlement`. -/
def addEntitlement (p : PagedKVPool) (pages : Nat) : PagedKVPool :=
  { p with entitledPages := u32Add p.entitledPages pages }

/-- `replace_entitlement`. -/
def replaceEntitlement (p : PagedKVPool) (oldPages newPages : Nat) :
    PagedKVPool :=
  { p with
    entitledPages := u32Add (u32Sub p.entitledPages oldPages) newPages }

/-- `acquire_row`. -/
def acquireRow (p : PagedKVPool) (row : Int) :
    Except Exception (Nat × PagedKVPool) :=
  if row < 0 ∨ (p.spec.tableRows : Int) ≤ row then
    .error (.outOfRange "Paged KV block-table row out of range")
  else if p.rowInUse row.toNat then
    .error (.logicError "Paged KV block-table row is already bound")
  else
    .ok (row.toNat,
      { p with rowInUse := Function.update p.rowInUse row.toNat true })

/-- `release_row`. -/
def releaseRow (p : PagedKVPool) (row : Nat) : PagedKVPool :=
  { p with rowInUse := Function.update p.rowInUse row false }

/-- The device copy of `publish_range`: entries `firstPage ..` of block
table row `row` become `pages`. -/
def publishRange (p : PagedKVPool) (row firstPage : Nat)
    (pages : List Nat) : PagedKVPool :=
  { p with
    blockTables := Function.update p.blockTables row fun block =>
      if firstPage ≤ block ∧ block < firstPage + pages.length
      then pages.getD (block - firstPage) 0
      else p.blockTables row block }

end PagedKVPool

-- ============ the allocations

/-- A live `PagedKVAllocation` (one whose `pool_` is not null). -/
structure PagedKVAllocation (κ : Type) where
  pool : κ
  pageIds : List Nat
  pageEntitlement : Nat
  boundRow : Option Nat

namespace PagedKVAllocation

variable {κ : Type}

/-- `mapped_page_count`. -/
def mappedPageCount (a : PagedKVAllocation κ) : Nat := a.pageIds.length

/-- The first page id `materialize_pages` would like: the one after the
allocation's last page. -/
def preferredFirst (a : PagedKVAllocation κ) : Option Nat :=
  a.pageIds.getLast?.map (· + 1)

end PagedKVAllocation

/-- Pools and the allocation objects over them. -/
structure PagedKV (κ ι : Type) where
  pools : κ → PagedKVPool
  allocations : ι → Option (PagedKVAllocation κ)

/-- `PagedKVReservation`, with the handle its allocation is returned in
and whether its page list could be allocated. -/
structure PagedKVReservation (κ ι : Type) where
  handle : ι
  pool : Option κ
  pageEntitlement : Nat
  allocates : Bool

/-- `PagedKVResize`. -/
structure PagedKVResize (ι : Type) where
  allocation : Option ι
  mappedPages : Nat
  pageEntitlement : Nat

namespace PagedKV

variable {κ ι : Type} [DecidableEq κ] [DecidableEq ι]

/-- Replace pool `k` and allocation `i`. -/
def put (w : PagedKV κ ι) (k : κ) (p : PagedKVPool) (i : ι)
    (a : Option (PagedKVAllocation κ)) : PagedKV κ ι where
  pools := Function.update w.pools k p
  allocations := Function.update w.allocations i a

/-- `PagedKVPool::reserve` into the (empty) handle `i`. The allocation's
constructor reserves its page list before the entitlement is added. -/
def reserve (w : PagedKV κ ι) (i : ι) (k : κ) (pageEntitlement : Nat)
    (allocates : Bool) : Outcome (PagedKV κ ι) :=
  if !(w.pools k).canReserve pageEntitlement then .throw .badAlloc w
  else if !allocates then .throw .badAlloc w
  else
    .ok (w.put k ((w.pools k).addEntitlement pageEntitlement) i
      (some { pool := k, pageIds := [],
              pageEntitlement := pageEntitlement, boundRow := none }))

/-- `set_page_entitlement`. -/
def setPageEntitlement (w : PagedKV κ ι) (i : ι) (pages : Nat)
    (allocates : Bool) : Outcome (PagedKV κ ι) :=
  match w.allocations i with
  | none =>
    .throw (.invalidArgument
      "Paged KV entitlement is smaller than mapped pages") w
  | some a =>
    if pages < a.mappedPageCount then
      .throw (.invalidArgument
        "Paged KV entitlement is smaller than mapped pages") w
    else if !(w.pools a.pool).canReplaceEntitlement a.pageEntitlement pages
    then .throw .badAlloc w
    else if !allocates then .throw .badAlloc w
    else
      .ok (w.put a.pool
        ((w.pools a.pool).replaceEntitlement a.pageEntitlement pages) i
        (some { a with pageEntitlement := pages }))

/-- `cancel_unmapped_entitlement`. -/
def cancelUnmappedEntitlement (w : PagedKV κ ι) (i : ι) : PagedKV κ ι :=
  match w.allocations i with
  | none => w
  | some a =>
    w.put a.pool
      ((w.pools a.pool).replaceEntitlement a.pageEntitlement a.mappedPageCount) i
      (some { a with pageEntitlement := a.mappedPageCount })

/-- `publish_range` of allocation `i`, when it is bound and the range is
not empty. -/
def publish (w : PagedKV κ ι) (i : ι) (firstPage : Nat) : PagedKV κ ι :=
  match w.allocations i with
  | none => w
  | some a =>
    match a.boundRow with
    | none => w
    | some row =>
      if a.mappedPageCount ≤ firstPage then w
      else
        w.put a.pool
          ((w.pools a.pool).publishRange row firstPage
            (a.pageIds.drop firstPage)) i (some a)

/-- `materialize_pages`. -/
def materializePages (w : PagedKV κ ι) (i : ι) (pages : Nat)
    (allocates : Bool) : Outcome (PagedKV κ ι) :=
  match w.allocations i with
  | none =>
    .throw (.invalidArgument
      "Paged KV materialize extent is outside entitlement") w
  | some a =>
    if pages < a.mappedPageCount ∨ a.pageEntitlement < pages then
      .throw (.invalidArgument
        "Paged KV materialize extent is outside entitlement") w
    else if pages - a.mappedPageCount = 0 then .ok w
    else
      match (w.pools a.pool).takePages (pages - a.mappedPageCount)
          a.preferredFirst allocates with
      | .error e => .throw e w
      | .ok (acquired, p) =>
        .ok ((w.put a.pool p i
          (some { a with pageIds := a.pageIds ++ acquired })).publish i
            a.mappedPageCount)

/-- `materialize_tokens`. -/
def materializeTokens (w : PagedKV κ ι) (i : ι) (tokens : Nat)
    (allocates : Bool) : Outcome (PagedKV κ ι) :=
  w.materializePages i (pagesForTokens tokens) allocates

/-- `trim_pages`. -/
def trimPages (w : PagedKV κ ι) (i : ι) (pages : Nat) : Outcome (PagedKV κ ι) :=
  match w.allocations i with
  | none =>
    .throw (.logicError "Cannot trim an empty Paged KV allocation") w
  | some a =>
    if a.mappedPageCount < pages then
      .throw (.invalidArgument "Paged KV trim extent exceeds mapped pages") w
    else if pages = a.mappedPageCount then .ok w
    else
      .ok (w.put a.pool ((w.pools a.pool).returnPages (a.pageIds.drop pages)) i
        (some { a with pageIds := a.pageIds.take pages }))

/-- `trim_tokens`. -/
def trimTokens (w : PagedKV κ ι) (i : ι) (tokens : Nat) : Outcome (PagedKV κ ι) :=
  w.trimPages i (pagesForTokens tokens)

/-- `bind_row`: the row is taken before the mapping is published. -/
def bindRow (w : PagedKV κ ι) (i : ι) (row : Int) : Outcome (PagedKV κ ι) :=
  match w.allocations i with
  | none =>
    .throw (.logicError "Cannot bind an empty Paged KV allocation") w
  | some a =>
    if a.boundRow.isSome then
      .throw (.logicError "Paged KV allocation is already bound") w
    else
      match (w.pools a.pool).acquireRow row with
      | .error e => .throw e w
      | .ok (r, p) =>
        .ok ((w.put a.pool p i (some { a with boundRow := some r })).publish i 0)

/-- `unbind_row`. -/
def unbindRow (w : PagedKV κ ι) (i : ι) : PagedKV κ ι :=
  match w.allocations i with
  | none => w
  | some a =>
    match a.boundRow with
    | none => w
    | some row =>
      w.put a.pool ((w.pools a.pool).releaseRow row) i
        (some { a with boundRow := none })

/-- The pool edits of `release` after its `unbind_row`: the pages go
back, the entitlement goes to zero, the handle is empty. -/
def giveBack (w : PagedKV κ ι) (i : ι) : PagedKV κ ι :=
  match w.allocations i with
  | none => w
  | some a =>
    w.put a.pool
      (((w.pools a.pool).returnPages a.pageIds).replaceEntitlement
        a.pageEntitlement 0) i none

/-- `release`, which is also what the destructor does. -/
def release (w : PagedKV κ ι) (i : ι) : PagedKV κ ι :=
  (w.unbindRow i).giveBack i

/-- The move constructor (into an empty `dst`) and the move assignment,
which releases what `dst` held. Moving onto itself does nothing. -/
def move (w : PagedKV κ ι) (dst src : ι) : PagedKV κ ι :=
  if dst = src then w
  else
    let released := w.release dst
    { released with
      allocations := Function.update
        (Function.update released.allocations dst (w.allocations src))
        src none }

-- ============ the bundles

/-- `validate_distinct_pools`; `seen` are the pools of the reservations
already passed. -/
def validateDistinctPools (seen : List κ) :
    List (PagedKVReservation κ ι) → Except Exception Unit
  | [] => .ok ()
  | r :: rest =>
    match r.pool with
    | none =>
      .error (.invalidArgument "Paged KV reservation must name a pool and pages")
    | some k =>
      if r.pageEntitlement = 0 then
        .error (.invalidArgument
          "Paged KV reservation must name a pool and pages")
      else if k ∈ seen then
        .error (.invalidArgument "Paged KV bundle contains the same pool twice")
      else validateDistinctPools (k :: seen) rest

/-- The reservation loop of `reserve_paged_kv_bundle`. A throw unwinds
the vector of the allocations already built, releasing each. -/
def reserveAll : List (PagedKVReservation κ ι) → PagedKV κ ι →
    Outcome (PagedKV κ ι)
  | [], w => .ok w
  | r :: rest, w =>
    match r.pool with
    | none => .ok w
    | some k =>
      match w.reserve r.handle k r.pageEntitlement r.allocates with
      | .throw e w' => .throw e w'
      | .ok w' =>
        match reserveAll rest w' with
        | .ok w'' => .ok w''
        | .throw e w'' => .throw e (w''.release r.handle)

/-- `reserve_paged_kv_bundle`; `allocates` is the fate of the result
vector's own allocation. -/
def reservePagedKVBundle (w : PagedKV κ ι)
    (reservations : List (PagedKVReservation κ ι)) (allocates : Bool) :
    Outcome (PagedKV κ ι) :=
  match validateDistinctPools [] reservations with
  | .error e => .throw e w
  | .ok () =>
    if reservations.any fun r =>
        r.pool.any fun k => !(w.pools k).canReserve r.pageEntitlement
    then .throw .badAlloc w
    else if !allocates then .throw .badAlloc w
    else reserveAll reservations w

/-- The validation loop of `resize_paged_kv_bundle`; `seen` are the
allocations of the changes already passed, with their pools. -/
def validateResize (w : PagedKV κ ι) (seen : List (ι × κ)) :
    List (PagedKVResize ι) → Except Exception Unit
  | [] => .ok ()
  | c :: rest =>
    match c.allocation.bind fun i => (w.allocations i).map (Prod.mk i) with
    | none =>
      .error (.invalidArgument "Paged KV resize must name a live allocation")
    | some (i, a) =>
      if a.mappedPageCount < c.mappedPages
          ∨ c.pageEntitlement < c.mappedPages then
        .error (.invalidArgument "Paged KV resize extents are inconsistent")
      else if seen.any fun s => s.1 = i || s.2 = a.pool then
        .error (.invalidArgument "Paged KV resize contains the same pool twice")
      else if !(w.pools a.pool).canReplaceEntitlement a.pageEntitlement
          c.pageEntitlement then .error .badAlloc
      else validateResize w ((i, a.pool) :: seen) rest

/-- One change of the last loop of `resize_paged_kv_bundle`. The page
list was reserved by the loop before it, so no allocation happens. -/
def applyResize (c : PagedKVResize ι) (w : PagedKV κ ι) : Outcome (PagedKV κ ι) :=
  match c.allocation with
  | none => .ok w
  | some i =>
    (w.trimPages i c.mappedPages).andThen fun w' =>
      w'.setPageEntitlement i c.pageEntitlement true

/-- `resize_paged_kv_bundle`; `allocates` is the fate of the page-list
reservations made before any pool changes. -/
def resizePagedKVBundle (w : PagedKV κ ι)
    (changes : List (PagedKVResize ι)) (allocates : Bool) :
    Outcome (PagedKV κ ι) :=
  match validateResize w [] changes with
  | .error e => .throw e w
  | .ok () =>
    if !allocates then .throw .badAlloc w
    else Outcome.forEach applyResize changes w

-- ============ the runs

/-- One call on a pool or an allocation. -/
inductive Op (κ ι : Type) where
  | reserve (i : ι) (k : κ) (pageEntitlement : Nat) (allocates : Bool)
  | setPageEntitlement (i : ι) (pages : Nat) (allocates : Bool)
  | cancelUnmappedEntitlement (i : ι)
  | materializePages (i : ι) (pages : Nat) (allocates : Bool)
  | materializeTokens (i : ι) (tokens : Nat) (allocates : Bool)
  | trimPages (i : ι) (pages : Nat)
  | trimTokens (i : ι) (tokens : Nat)
  | bindRow (i : ι) (row : Int)
  | unbindRow (i : ι)
  | release (i : ι)
  | move (dst src : ι)
  | reserveBundle (reservations : List (PagedKVReservation κ ι))
      (allocates : Bool)
  | resizeBundle (changes : List (PagedKVResize ι)) (allocates : Bool)

/-- What a call does. A reservation builds its allocation in a handle
that holds none: into a live one the host program writes a temporary and
a `move`, so that call is not enabled here. -/
def apply (w : PagedKV κ ι) : Op κ ι → Option (Outcome (PagedKV κ ι))
  | .reserve i k pages allocates =>
    if (w.allocations i).isSome then none
    else some (w.reserve i k pages allocates)
  | .setPageEntitlement i pages allocates =>
    some (w.setPageEntitlement i pages allocates)
  | .cancelUnmappedEntitlement i =>
    some (.ok (w.cancelUnmappedEntitlement i))
  | .materializePages i pages allocates =>
    some (w.materializePages i pages allocates)
  | .materializeTokens i tokens allocates =>
    some (w.materializeTokens i tokens allocates)
  | .trimPages i pages => some (w.trimPages i pages)
  | .trimTokens i tokens => some (w.trimTokens i tokens)
  | .bindRow i row => some (w.bindRow i row)
  | .unbindRow i => some (.ok (w.unbindRow i))
  | .release i => some (.ok (w.release i))
  | .move dst src => some (.ok (w.move dst src))
  | .reserveBundle reservations allocates =>
    if (reservations.map (·.handle)).Nodup
        ∧ ∀ r ∈ reservations, w.allocations r.handle = none
    then some (w.reservePagedKVBundle reservations allocates)
    else none
  | .resizeBundle changes allocates =>
    some (w.resizePagedKVBundle changes allocates)

/-- One step of the host program: the state a call leaves, returned or
thrown. -/
def step (w : PagedKV κ ι) (op : Op κ ι) : Option (PagedKV κ ι) :=
  (w.apply op).map Outcome.state

/-- Freshly built pools and no allocation. -/
def init (specs : κ → PagedKVPoolSpec) (tables : κ → Nat → Nat → Nat) :
    PagedKV κ ι where
  pools := fun k => .make (specs k) (tables k)
  allocations := fun _ => none

end PagedKV

end Ginfer.Pool
