/-
The block tables against the page lists.

A bound allocation's row of the device table is a second copy of its page
list, written by `bind_row` and `materialize_pages` and by nothing else,
while trimming, unbinding and moving change the list. Two relations say
what a call can do:

- `Moves` — everything but publication. No table changes, and every
  allocation that is bound afterwards was bound to the same row before,
  with a page list that its own is a prefix of.
- `publish` — the one writer, on the caller's own row.

Every edit of a page list that a row shows is followed by the publication
of what it added, so the agreement holds between any two calls
(`block_tables_run`).
-/
import Ginfer.Pool.Proofs.Effects

namespace Ginfer.Pool.PagedKV

open Ginfer.Lib Function PagedKVPool List

variable {κ ι : Type} [DecidableEq κ] [DecidableEq ι]
variable {w w' w'' : PagedKV κ ι} {k : κ} {i : ι}
  {o : Option (PagedKVAllocation κ)} {a : PagedKVAllocation κ}

-- ============ the agreement

/-- The first `count` entries of row `row` of pool `k`'s block table. -/
def tableEntries (w : PagedKV κ ι) (k : κ) (row count : Nat) : List Nat :=
  (range count).map ((w.pools k).blockTables row)

/-- Every bound allocation finds its pages in its row, in order. -/
def Published (w : PagedKV κ ι) : Prop :=
  ∀ i a row, w.allocations i = some a → a.boundRow = some row →
    tableEntries w a.pool row a.mappedPageCount = a.pageIds

/-- No allocation is entitled to more pages than a row has entries. -/
def Capped (w : PagedKV κ ι) : Prop :=
  ∀ i a, w.allocations i = some a →
    a.pageEntitlement ≤ (w.pools a.pool).spec.logicalPageCapacity

omit [DecidableEq κ] [DecidableEq ι] in
theorem tableEntries_eq_iff {row : Nat} {pages : List Nat} :
    tableEntries w k row pages.length = pages
      ↔ ∀ block (h : block < pages.length),
        (w.pools k).blockTables row block = pages.get ⟨block, h⟩ := by
  constructor
  · intro h block hblock
    have hget := getElem_of_eq h.symm hblock
    simpa [tableEntries] using hget.symm
  · intro h
    refine ext_getElem (by simp [tableEntries]) ?_
    intro block hleft hright
    simpa [tableEntries] using h block hright

-- ============ calls that do not publish

/-- What a call that publishes nothing can do. -/
structure Moves (w w' : PagedKV κ ι) : Prop where
  tables : ∀ k, (w'.pools k).blockTables = (w.pools k).blockTables
  specs : ∀ k, (w'.pools k).spec = (w.pools k).spec
  bound : ∀ j b row, w'.allocations j = some b → b.boundRow = some row →
    ∃ i a, w.allocations i = some a ∧ a.pool = b.pool
      ∧ a.boundRow = some row ∧ b.pageIds <+: a.pageIds
  entitled : ∀ j b, w'.allocations j = some b →
    b.pageEntitlement ≤ (w.pools b.pool).spec.logicalPageCapacity
      ∨ ∃ i a, w.allocations i = some a ∧ a.pool = b.pool
          ∧ b.pageEntitlement ≤ a.pageEntitlement

omit [DecidableEq κ] [DecidableEq ι] in
theorem Moves.refl (w : PagedKV κ ι) : Moves w w where
  tables := fun _ => rfl
  specs := fun _ => rfl
  bound := fun j b _ hb hrow => ⟨j, b, hb, rfl, hrow, prefix_rfl⟩
  entitled := fun j b hb => .inr ⟨j, b, hb, rfl, le_refl _⟩

omit [DecidableEq κ] [DecidableEq ι] in
theorem Moves.trans (h : Moves w w') (h' : Moves w' w'') : Moves w w'' where
  tables := fun k => (h'.tables k).trans (h.tables k)
  specs := fun k => (h'.specs k).trans (h.specs k)
  bound := by
    intro j b row hb hrow
    obtain ⟨j', b', hb', hpool', hrow', hids'⟩ := h'.bound j b row hb hrow
    obtain ⟨i, a, ha, hpool, hrow, hids⟩ := h.bound j' b' row hb' hrow'
    exact ⟨i, a, ha, hpool.trans hpool', hrow, hids'.trans hids⟩
  entitled := by
    intro j b hb
    rcases h'.entitled j b hb with hcap | ⟨j', b', hb', hpool', hle'⟩
    · rw [h.specs] at hcap
      exact .inl hcap
    · rcases h.entitled j' b' hb' with hcap | ⟨i, a, ha, hpool, hle⟩
      · rw [hpool'] at hcap
        exact .inl (hle'.trans hcap)
      · exact .inr ⟨i, a, ha, hpool.trans hpool', hle'.trans hle⟩

omit [DecidableEq κ] [DecidableEq ι] in
/-- The agreement survives what publishes nothing: a row's entries cover
every prefix of the list they were written for. -/
theorem Published.moves (h : Published w) (hmoves : Moves w w') :
    Published w' := by
  intro j b row hb hrow
  obtain ⟨i, a, ha, hpool, hrow', tail, hids⟩ :=
    hmoves.bound j b row hb hrow
  have hold := h i a row ha hrow'
  refine tableEntries_eq_iff.mpr ?_
  intro block hblock
  have hlt : block < a.pageIds.length := by
    rw [← hids, length_append]
    omega
  have hentry := tableEntries_eq_iff.mp hold block hlt
  rw [hmoves.tables, ← hpool, hentry]
  simp only [get_eq_getElem, ← hids, getElem_append_left hblock]

omit [DecidableEq κ] [DecidableEq ι] in
theorem Capped.moves (h : Capped w) (hmoves : Moves w w') : Capped w' := by
  intro j b hb
  rw [hmoves.specs]
  rcases hmoves.entitled j b hb with hcap | ⟨i, a, ha, hpool, hle⟩
  · exact hcap
  · have := h i a ha
    rw [hpool] at this
    exact hle.trans this

variable {p : PagedKVPool}

/-- A `put` that keeps the pool's tables moves. -/
theorem put_moves (htables : p.blockTables = (w.pools k).blockTables)
    (hspec : p.spec = (w.pools k).spec)
    (hbound : ∀ b row, o = some b → b.boundRow = some row →
      ∃ a, w.allocations i = some a ∧ a.pool = b.pool
        ∧ a.boundRow = some row ∧ b.pageIds <+: a.pageIds)
    (hentitled : ∀ b, o = some b →
      b.pageEntitlement ≤ (w.pools b.pool).spec.logicalPageCapacity
        ∨ ∃ a, w.allocations i = some a ∧ a.pool = b.pool
        ∧ b.pageEntitlement ≤ a.pageEntitlement) :
    Moves w (w.put k p i o) where
  tables := by
    intro k'
    by_cases hk : k' = k
    · subst hk
      rw [put_pools_self, htables]
    · rw [put_pools_of_ne _ _ _ _ _ hk]
  specs := by
    intro k'
    by_cases hk : k' = k
    · subst hk
      rw [put_pools_self, hspec]
    · rw [put_pools_of_ne _ _ _ _ _ hk]
  bound := by
    intro j b row hb hrow
    by_cases hj : j = i
    · subst hj
      rw [put_allocations_self] at hb
      obtain ⟨a, ha⟩ := hbound b row hb hrow
      exact ⟨j, a, ha⟩
    · rw [put_allocations_of_ne _ _ _ _ _ hj] at hb
      exact ⟨j, b, hb, rfl, hrow, prefix_rfl⟩
  entitled := by
    intro j b hb
    by_cases hj : j = i
    · subst hj
      rw [put_allocations_self] at hb
      rcases hentitled b hb with hcap | ⟨a, ha⟩
      · exact .inl hcap
      · exact .inr ⟨j, a, ha⟩
    · rw [put_allocations_of_ne _ _ _ _ _ hj] at hb
      exact .inr ⟨j, b, hb, rfl, le_refl _⟩

theorem returnPages_tables (p : PagedKVPool) (pages : List Nat) :
    (p.returnPages pages).blockTables = p.blockTables := by
  unfold returnPages
  split
  · rfl
  · rfl

variable {pages : Nat}

theorem canReserve_le (h : p.canReserve pages = true) :
    pages ≤ p.spec.logicalPageCapacity := by
  unfold canReserve at h
  simp only [Bool.and_eq_true, decide_eq_true_eq] at h
  exact h.1.2

theorem canReplaceEntitlement_le {old : Nat}
    (h : p.canReplaceEntitlement old pages = true) :
    pages ≤ p.spec.logicalPageCapacity := by
  unfold canReplaceEntitlement at h
  simp only [Bool.and_eq_true, decide_eq_true_eq] at h
  exact h.1.2

theorem reserve_moves (k : κ) (pages : Nat) (allocates : Bool) :
    Moves w (w.reserve i k pages allocates).state := by
  unfold reserve
  split
  · exact Moves.refl w
  next hcan =>
  split
  · exact Moves.refl w
  refine put_moves rfl rfl ?_ ?_
  · rintro b row ⟨⟩ hrow
    cases hrow
  · rintro b ⟨⟩
    exact .inl (canReserve_le (by simpa using hcan))

theorem setPageEntitlement_moves (pages : Nat) (allocates : Bool) :
    Moves w (w.setPageEntitlement i pages allocates).state := by
  unfold setPageEntitlement
  split
  · exact Moves.refl w
  next a ha =>
  split
  · exact Moves.refl w
  split
  · exact Moves.refl w
  next hcan =>
  split
  · exact Moves.refl w
  refine put_moves rfl rfl ?_ ?_
  · rintro b row ⟨⟩ hrow
    exact ⟨a, ha, rfl, hrow, prefix_rfl⟩
  · rintro b ⟨⟩
    exact .inl (canReplaceEntitlement_le (by simpa using hcan))

theorem cancelUnmappedEntitlement_moves [Fintype ι] (h : Inv w) :
    Moves w (w.cancelUnmappedEntitlement i) := by
  unfold cancelUnmappedEntitlement
  split
  · exact Moves.refl w
  next a ha =>
  refine put_moves rfl rfl ?_ ?_
  · rintro b row ⟨⟩ hrow
    exact ⟨a, ha, rfl, hrow, prefix_rfl⟩
  · rintro b ⟨⟩
    exact .inr ⟨a, ha, rfl, (h a.pool).mapped_le i a ha rfl⟩

theorem trimPages_moves (pages : Nat) :
    Moves w (w.trimPages i pages).state := by
  unfold trimPages
  split
  · exact Moves.refl w
  next a ha =>
  split
  · exact Moves.refl w
  split
  · exact Moves.refl w
  refine put_moves (returnPages_tables _ _) (returnPages_spec _ _) ?_ ?_
  · rintro b row ⟨⟩ hrow
    exact ⟨a, ha, rfl, hrow, take_prefix _ _⟩
  · rintro b ⟨⟩
    exact .inr ⟨a, ha, rfl, le_refl _⟩

theorem unbindRow_moves : Moves w (w.unbindRow i) := by
  unfold unbindRow
  split
  · exact Moves.refl w
  next a ha =>
  split
  · exact Moves.refl w
  refine put_moves rfl rfl ?_ ?_
  · rintro b row ⟨⟩ hrow
    cases hrow
  · rintro b ⟨⟩
    exact .inr ⟨a, ha, rfl, le_refl _⟩

theorem giveBack_moves : Moves w (w.giveBack i) := by
  unfold giveBack
  split
  · exact Moves.refl w
  refine put_moves (returnPages_tables _ _) (returnPages_spec _ _) ?_ ?_
  · rintro b row ⟨⟩
  · rintro b ⟨⟩

theorem release_moves : Moves w (w.release i) :=
  unbindRow_moves.trans giveBack_moves

/-- `move` renames what `release` leaves. -/
theorem move_moves (dst src : ι) : Moves w (w.move dst src) := by
  unfold move
  split
  · exact Moves.refl w
  have hrelease := release_moves (w := w) (i := dst)
  -- What either handle holds afterwards is what the source handle held.
  have horigin : ∀ j b, update (update
      (w.release dst).allocations dst (w.allocations src)) src none j = some b →
      w.allocations src = some b ∨ (w.release dst).allocations j = some b := by
    intro j b hb
    by_cases hsrc : j = src
    · subst hsrc
      rw [update_self] at hb
      cases hb
    · rw [update_of_ne hsrc] at hb
      by_cases hdst : j = dst
      · subst hdst
        rw [update_self] at hb
        exact .inl hb
      · rw [update_of_ne hdst] at hb
        exact .inr hb
  refine ⟨hrelease.tables, hrelease.specs, ?_, ?_⟩
  · intro j b row hb hrow
    rcases horigin j b hb with hsrc | hkept
    · exact ⟨src, b, hsrc, rfl, hrow, prefix_rfl⟩
    · exact hrelease.bound j b row hkept hrow
  · intro j b hb
    rcases horigin j b hb with hsrc | hkept
    · exact .inr ⟨src, b, hsrc, rfl, le_refl _⟩
    · exact hrelease.entitled j b hkept

theorem reserveAll_moves : ∀ (rs : List (PagedKVReservation κ ι))
    (w : PagedKV κ ι), Moves w (reserveAll rs w).state := by
  intro rs
  induction rs with
  | nil =>
    intro w
    exact Moves.refl w
  | cons r rest ih =>
    intro w
    unfold reserveAll
    split
    · exact Moves.refl w
    next k _ =>
    have hreserve := reserve_moves (w := w) (i := r.handle) k
      r.pageEntitlement r.allocates
    split
    · next e w₁ heq =>
      rw [heq] at hreserve
      exact hreserve
    next w₁ heq =>
    rw [heq] at hreserve
    have hrest := ih w₁
    split
    · next w₂ heq₂ =>
      rw [heq₂] at hrest
      exact hreserve.trans hrest
    · next e w₂ heq₂ =>
      rw [heq₂] at hrest
      exact (hreserve.trans hrest).trans release_moves

theorem reservePagedKVBundle_moves (rs : List (PagedKVReservation κ ι))
    (allocates : Bool) :
    Moves w (w.reservePagedKVBundle rs allocates).state := by
  unfold reservePagedKVBundle
  split
  · exact Moves.refl w
  split
  · exact Moves.refl w
  split
  · exact Moves.refl w
  exact reserveAll_moves rs w

theorem resizePagedKVBundle_moves (changes : List (PagedKVResize ι))
    (allocates : Bool) :
    Moves w (w.resizePagedKVBundle changes allocates).state := by
  unfold resizePagedKVBundle
  split
  · exact Moves.refl w
  split
  · exact Moves.refl w
  refine Outcome.forEach_keeps (P := Moves w) ?_ w (Moves.refl w)
  intro c _ w₁ hw₁
  unfold applyResize
  split
  · exact hw₁
  refine Outcome.andThen_keeps (hw₁.trans (trimPages_moves _)) ?_
  intro w₂ hw₂
  exact hw₂.trans (setPageEntitlement_moves _ _)

-- ============ publication

/-- Everything but `i`'s own row is as it was: what `publish` can do. -/
structure Publishes (w w' : PagedKV κ ι) (i : ι) : Prop where
  allocations : w'.allocations = w.allocations
  specs : ∀ k, (w'.pools k).spec = (w.pools k).spec
  tables : ∀ k row, ¬ BoundTo (w.allocations i) k row →
    (w'.pools k).blockTables row = (w.pools k).blockTables row

theorem publish_publishes (firstPage : Nat) :
    Publishes w (w.publish i firstPage) i := by
  have hrefl : Publishes w w i := ⟨rfl, fun _ => rfl, fun _ _ _ => rfl⟩
  unfold publish
  split
  · exact hrefl
  next a ha =>
  split
  · exact hrefl
  next row hrow =>
  split
  · exact hrefl
  refine ⟨?_, ?_, ?_⟩
  · show update w.allocations i (some a) = w.allocations
    rw [← ha, update_eq_self]
  · intro k
    by_cases hk : k = a.pool
    · subst hk
      show ((w.put _ _ _ _).pools _).spec = _
      rw [put_pools_self]
      rfl
    · show ((w.put _ _ _ _).pools _).spec = _
      rw [put_pools_of_ne _ _ _ _ _ hk]
  · intro k row' hother
    show ((w.put _ _ _ _).pools k).blockTables row' = _
    by_cases hk : k = a.pool
    · subst hk
      have hne : row' ≠ row := by
        rintro rfl
        exact hother ⟨a, ha, rfl, hrow⟩
      rw [put_pools_self]
      exact update_of_ne hne _ _
    · rw [put_pools_of_ne _ _ _ _ _ hk]

variable {firstPage : Nat}

/-- A publication completes the row: the entries before the first
page were right already, the others are written. -/
theorem publish_own {row : Nat} (ha : w.allocations i = some a)
    (hrow : a.boundRow = some row)
    (hbefore : ∀ block (h : block < a.pageIds.length), block < firstPage →
      (w.pools a.pool).blockTables row block = a.pageIds.get ⟨block, h⟩) :
    tableEntries (w.publish i firstPage) a.pool row
      a.mappedPageCount = a.pageIds := by
  refine tableEntries_eq_iff.mpr ?_
  intro block hblock
  unfold publish
  rw [ha]
  dsimp only
  rw [hrow]
  dsimp only
  split
  · next hle => exact hbefore block hblock (lt_of_lt_of_le hblock hle)
  show ((w.put _ _ _ _).pools a.pool).blockTables row block = _
  rw [put_pools_self]
  simp only [publishRange, update_self, length_drop]
  split
  · next hin =>
    have hindex : firstPage + (block - firstPage) = block := by omega
    rw [getD_eq_getElem?_getD, getElem?_drop, hindex,
      getElem?_eq_getElem hblock]
    rfl
  · next hout => exact hbefore block hblock (by omega)

/-- The agreement of the others survives a publication: rows are bound
once. -/
theorem Published.publish [Fintype ι] (hinv : Inv (w.publish i firstPage))
    (hothers : ∀ j b row, j ≠ i → w.allocations j = some b →
      b.boundRow = some row →
      tableEntries w b.pool row b.mappedPageCount = b.pageIds)
    (hbefore : ∀ a row, w.allocations i = some a → a.boundRow = some row →
      ∀ block (h : block < a.pageIds.length), block < firstPage →
        (w.pools a.pool).blockTables row block = a.pageIds.get ⟨block, h⟩) :
    Published (w.publish i firstPage) := by
  have hpub := publish_publishes (w := w) (i := i) firstPage
  intro j b row hb hrow
  rw [hpub.allocations] at hb
  by_cases hj : j = i
  · subst hj
    exact publish_own hb hrow (hbefore b row hb hrow)
  · have hold := hothers j b row hj hb hrow
    unfold tableEntries at hold ⊢
    rw [hpub.tables b.pool row]
    · exact hold
    · intro hbound
      have hdistinct := (hinv b.pool).row_distinct j i row
      rw [hpub.allocations] at hdistinct
      exact hj (hdistinct ⟨b, hb, rfl, hrow⟩ hbound)

omit [DecidableEq κ] [DecidableEq ι] in
theorem Capped.publishes (h : Capped w) (hpub : Publishes w w' i) :
    Capped w' := by
  intro j b hb
  rw [hpub.allocations] at hb
  rw [hpub.specs]
  exact h j b hb

-- ============ growing, binding

theorem takePages_tables {p' : PagedKVPool} {count : Nat}
    {preferred : Option Nat} {allocates : Bool} {out : List Nat}
    (h : p.takePages count preferred allocates = .ok (out, p')) :
    p'.blockTables = p.blockTables := by
  by_cases hcount : count = 0
  · unfold takePages at h
    rw [if_pos hcount] at h
    cases h
    rfl
  · obtain ⟨start, -, hrun⟩ := takePages_run h hcount
    have htables : (p.extractRun start count).2.blockTables = p.blockTables := rfl
    rw [← hrun] at htables
    exact htables

/-- The state `materialize_pages` and `bind_row` publish from: handle `i`
was edited without touching a table, and its row agrees with the first
`firstPage` of its pages. -/
structure Ready (w w' : PagedKV κ ι) (i : ι) (firstPage : Nat) : Prop where
  allocations : ∀ j, j ≠ i → w'.allocations j = w.allocations j
  tables : ∀ k, (w'.pools k).blockTables = (w.pools k).blockTables
  capped : Capped w'
  before : ∀ a row, w'.allocations i = some a → a.boundRow = some row →
    ∀ block (h : block < a.pageIds.length), block < firstPage →
      (w'.pools a.pool).blockTables row block = a.pageIds.get ⟨block, h⟩

theorem Ready.publish [Fintype ι] (h : Ready w w' i firstPage)
    (hinv : Inv (w'.publish i firstPage)) (hpublished : Published w) :
    Published (w'.publish i firstPage) := by
  refine Published.publish hinv ?_ h.before
  intro j b row hj hb hrow
  rw [h.allocations j hj] at hb
  have hold := hpublished j b row hb hrow
  unfold tableEntries at hold ⊢
  rw [h.tables]
  exact hold

/-- A `put` of pool `a.pool` that keeps its tables. -/
theorem put_tables (htables : p.blockTables = (w.pools k).blockTables) (k' : κ) :
    ((w.put k p i o).pools k').blockTables = (w.pools k').blockTables := by
  by_cases hk : k' = k
  · subst hk
    rw [put_pools_self, htables]
  · rw [put_pools_of_ne _ _ _ _ _ hk]

theorem put_capped {b : PagedKVAllocation κ}
    (h : Capped w) (ha : w.allocations i = some a)
    (hspec : p.spec = (w.pools k).spec) (hpool : b.pool = a.pool)
    (hentitled : b.pageEntitlement = a.pageEntitlement) :
    Capped (w.put k p i (some b)) := by
  have hspecs : ∀ k', ((w.put k p i (some b)).pools k').spec
      = (w.pools k').spec := (put_writes hspec).specs
  intro j c hc
  rw [hspecs]
  by_cases hj : j = i
  · subst hj
    rw [put_allocations_self] at hc
    cases hc
    rw [hpool, hentitled]
    exact h j a ha
  · rw [put_allocations_of_ne _ _ _ _ _ hj] at hc
    exact h j c hc

/-- `materialize_pages` up to its publication. -/
theorem grow_ready {out : List Nat} {count : Nat}
    {preferred : Option Nat} {allocates : Bool}
    (hpublished : Published w) (hcapped : Capped w)
    (ha : w.allocations i = some a)
    (htake : (w.pools a.pool).takePages count preferred allocates
      = .ok (out, p)) :
    Ready w (w.put a.pool p i (some { a with pageIds := a.pageIds ++ out })) i
      a.mappedPageCount where
  allocations := fun _ hj => put_allocations_of_ne _ _ _ _ _ hj
  tables := put_tables (takePages_tables htake)
  capped := put_capped hcapped ha (takePages_spec htake).1 rfl rfl
  before := by
    intro b row hb hrow block hblock hlt
    rw [put_allocations_self] at hb
    cases hb
    rw [put_tables (takePages_tables htake)]
    have hold := tableEntries_eq_iff.mp (hpublished i a row ha hrow) block hlt
    have hhead : (a.pageIds ++ out)[block] = a.pageIds[block] :=
      getElem_append_left hlt
    exact hold.trans hhead.symm

/-- `bind_row` up to its publication. -/
theorem bind_ready {r : Nat} {row : Int}
    (hcapped : Capped w) (ha : w.allocations i = some a)
    (hacquire : (w.pools a.pool).acquireRow row = .ok (r, p)) :
    Ready w (w.put a.pool p i (some { a with boundRow := some r })) i 0 := by
  unfold acquireRow at hacquire
  split at hacquire
  · cases hacquire
  split at hacquire
  · cases hacquire
  cases hacquire
  exact
    { allocations := fun _ hj => put_allocations_of_ne _ _ _ _ _ hj
      tables := put_tables rfl
      capped := put_capped hcapped ha rfl rfl rfl
      before := fun _ _ _ _ _ _ h => absurd h (Nat.not_lt_zero _) }

/-- The books of a state: every row agrees, no entitlement is larger than
a row. -/
structure Mirrored (w : PagedKV κ ι) : Prop where
  published : Published w
  capped : Capped w

omit [DecidableEq κ] [DecidableEq ι] in
theorem Mirrored.moves (h : Mirrored w) (hmoves : Moves w w') : Mirrored w' :=
  ⟨h.published.moves hmoves, h.capped.moves hmoves⟩

theorem materializePages_mirrored [Fintype ι] (h : Inv w)
    (hmirrored : Mirrored w) {allocates : Bool} :
    Mirrored (w.materializePages i pages allocates).state := by
  have hkeeps : Inv (w.materializePages i pages allocates).state :=
    materializePages_keeps h
  unfold materializePages at hkeeps ⊢
  split
  · exact hmirrored
  next a ha =>
  rw [ha] at hkeeps
  dsimp only at hkeeps
  split
  · exact hmirrored
  next hextent =>
  rw [if_neg hextent] at hkeeps
  split
  · exact hmirrored
  next hcount =>
  rw [if_neg hcount] at hkeeps
  split
  · exact hmirrored
  next out p htake =>
  rw [htake] at hkeeps
  have hready := grow_ready hmirrored.published hmirrored.capped ha htake
  exact ⟨hready.publish hkeeps hmirrored.published,
    hready.capped.publishes (publish_publishes _)⟩

theorem bindRow_mirrored [Fintype ι] (h : Inv w) (hmirrored : Mirrored w)
    {row : Int} : Mirrored (w.bindRow i row).state := by
  have hkeeps : Inv (w.bindRow i row).state := bindRow_keeps h
  unfold bindRow at hkeeps ⊢
  split
  · exact hmirrored
  next a ha =>
  rw [ha] at hkeeps
  dsimp only at hkeeps
  split
  · exact hmirrored
  next hunbound =>
  rw [if_neg hunbound] at hkeeps
  split
  · exact hmirrored
  next r p hacquire =>
  rw [hacquire] at hkeeps
  have hready := bind_ready hmirrored.capped ha hacquire
  exact ⟨hready.publish hkeeps hmirrored.published,
    hready.capped.publishes (publish_publishes _)⟩

-- ============ the runs

/-- The handles a call is made on. -/
def Op.touches : Op κ ι → ι → Prop
  | .reserve i .. => fun j => j = i
  | .setPageEntitlement i .. => fun j => j = i
  | .cancelUnmappedEntitlement i => fun j => j = i
  | .materializePages i .. => fun j => j = i
  | .materializeTokens i .. => fun j => j = i
  | .trimPages i .. => fun j => j = i
  | .trimTokens i .. => fun j => j = i
  | .bindRow i .. => fun j => j = i
  | .unbindRow i => fun j => j = i
  | .release i => fun j => j = i
  | .move dst src => fun j => j = dst ∨ j = src
  | .reserveBundle rs _ => fun j => j ∈ rs.map (·.handle)
  | .resizeBundle cs _ => fun j => some j ∈ cs.map (·.allocation)

variable {op : Op κ ι}

/-- A call publishes nothing, maps pages or binds a row. -/
theorem step_cases [Fintype ι] (hinv : Inv w) (hstep : w.step op = some w') :
    Moves w w'
      ∨ (∃ i pages allocates, op.touches i
        ∧ w' = (w.materializePages i pages allocates).state)
      ∨ ∃ i row, op.touches i ∧ w' = (w.bindRow i row).state := by
  unfold step at hstep
  obtain ⟨out, happly, rfl⟩ := Option.map_eq_some_iff.mp hstep
  cases op with
  | reserve i k pages allocates =>
    simp only [apply] at happly
    split at happly
    · cases happly
    · cases happly
      exact .inl (reserve_moves k pages allocates)
  | setPageEntitlement i pages allocates =>
    cases happly
    exact .inl (setPageEntitlement_moves pages allocates)
  | cancelUnmappedEntitlement i =>
    cases happly
    exact .inl (cancelUnmappedEntitlement_moves hinv)
  | materializePages i pages allocates =>
    cases happly
    exact .inr (.inl ⟨i, pages, allocates, rfl, rfl⟩)
  | materializeTokens i tokens allocates =>
    cases happly
    exact .inr (.inl ⟨i, _, allocates, rfl, rfl⟩)
  | trimPages i pages | trimTokens i tokens =>
    cases happly
    exact .inl (trimPages_moves _)
  | bindRow i row =>
    cases happly
    exact .inr (.inr ⟨i, row, rfl, rfl⟩)
  | unbindRow i =>
    cases happly
    exact .inl unbindRow_moves
  | release i =>
    cases happly
    exact .inl release_moves
  | move dst src =>
    cases happly
    exact .inl (move_moves dst src)
  | reserveBundle reservations allocates =>
    simp only [apply] at happly
    split at happly
    · cases happly
      exact .inl (reservePagedKVBundle_moves reservations allocates)
    · cases happly
  | resizeBundle changes allocates =>
    cases happly
    exact .inl (resizePagedKVBundle_moves changes allocates)

/-- What is published comes after an edit of the call's own handle. -/
theorem step_mirrored [Fintype ι] (hinv : Inv w)
    (hstep : w.step op = some w') (h : Mirrored w) : Mirrored w' := by
  obtain hmoves | ⟨i, pages, allocates, -, rfl⟩ | ⟨i, row, -, rfl⟩ :=
    step_cases hinv hstep
  · exact h.moves hmoves
  · exact materializePages_mirrored hinv h
  · exact bindRow_mirrored hinv h

-- ============ the frame

/-- No call on the handles of `hs` changes what another handle holds. -/
def Elsewhere (hs : ι → Prop) (w w' : PagedKV κ ι) : Prop :=
  ∀ j, ¬ hs j → w'.allocations j = w.allocations j

variable {hs : ι → Prop}

omit [DecidableEq κ] [DecidableEq ι] in
theorem Elsewhere.trans (h : Elsewhere hs w w')
    (h' : Elsewhere hs w' w'') : Elsewhere hs w w'' :=
  fun j hj => (h' j hj).trans (h j hj)

theorem put_elsewhere (hs : ι → Prop) (hi : hs i) (p : PagedKVPool) :
    Elsewhere hs w (w.put k p i o) :=
  fun _ hj => put_allocations_of_ne _ _ _ _ _ fun heq => hj (heq ▸ hi)

theorem publish_elsewhere (hs : ι → Prop) (hi : hs i) (p : PagedKVPool)
    (firstPage : Nat) :
    Elsewhere hs w ((w.put k p i o).publish i firstPage) := by
  intro j hj
  rw [(publish_publishes firstPage).allocations]
  exact put_elsewhere _ hi p j hj

theorem trimPages_elsewhere (hs : ι → Prop) (hi : hs i) (pages : Nat) :
    Elsewhere hs w (w.trimPages i pages).state := by
  unfold trimPages
  split
  · exact fun _ _ => rfl
  split
  · exact fun _ _ => rfl
  split
  · exact fun _ _ => rfl
  · exact put_elsewhere _ hi _

theorem setPageEntitlement_elsewhere (hs : ι → Prop) (hi : hs i)
    (pages : Nat) (allocates : Bool) :
    Elsewhere hs w (w.setPageEntitlement i pages allocates).state := by
  unfold setPageEntitlement
  split
  · exact fun _ _ => rfl
  split
  · exact fun _ _ => rfl
  split
  · exact fun _ _ => rfl
  split
  · exact fun _ _ => rfl
  · exact put_elsewhere _ hi _

theorem materializePages_elsewhere (hs : ι → Prop) (hi : hs i)
    (pages : Nat) (allocates : Bool) :
    Elsewhere hs w (w.materializePages i pages allocates).state := by
  unfold materializePages
  split
  · exact fun _ _ => rfl
  split
  · exact fun _ _ => rfl
  split
  · exact fun _ _ => rfl
  split
  · exact fun _ _ => rfl
  · exact publish_elsewhere _ hi _ _

theorem bindRow_elsewhere (hs : ι → Prop) (hi : hs i) (row : Int) :
    Elsewhere hs w (w.bindRow i row).state := by
  unfold bindRow
  split
  · exact fun _ _ => rfl
  split
  · exact fun _ _ => rfl
  split
  · exact fun _ _ => rfl
  · exact publish_elsewhere _ hi _ _

theorem release_elsewhere (hs : ι → Prop) (hi : hs i) :
    Elsewhere hs w (w.release i) := by
  intro j hj
  rw [release_allocations]
  have hne : j ≠ i := by
    rintro rfl
    exact hj hi
  exact update_of_ne hne _ _

theorem move_elsewhere (dst src : ι) :
    Elsewhere (fun j => j = dst ∨ j = src) w (w.move dst src) := by
  intro j hj
  obtain ⟨hdst, hsrc⟩ := not_or.mp hj
  unfold move
  split
  · rfl
  show update (update (w.release dst).allocations dst _) src none j = _
  rw [update_of_ne hsrc, update_of_ne hdst]
  exact release_elsewhere (fun j => j = dst) rfl j hdst

theorem reserveAll_elsewhere :
    ∀ (rs : List (PagedKVReservation κ ι)) (w : PagedKV κ ι),
      (∀ r ∈ rs, hs r.handle) → Elsewhere hs w (reserveAll rs w).state := by
  intro rs
  induction rs with
  | nil =>
    intro w _ j _
    rfl
  | cons r rest ih =>
    intro w hin
    have hr := hin r (.head _)
    unfold reserveAll
    split
    · exact fun _ _ => rfl
    next k _ =>
    have hreserve : Elsewhere hs w (w.reserve r.handle k
        r.pageEntitlement r.allocates).state :=
      fun j hj => reserve_allocations_of_ne
        fun heq : j = r.handle => hj (heq ▸ hr)
    split
    · next e w₁ heq =>
      rw [heq] at hreserve
      exact hreserve
    next w₁ heq =>
    rw [heq] at hreserve
    have hrest := ih w₁ fun r' hr' => hin r' (.tail _ hr')
    split
    · next w₂ heq₂ =>
      rw [heq₂] at hrest
      exact hreserve.trans hrest
    · next e w₂ heq₂ =>
      rw [heq₂] at hrest
      exact (hreserve.trans hrest).trans (release_elsewhere _ hr)

theorem resizePagedKVBundle_elsewhere (changes : List (PagedKVResize ι))
    (allocates : Bool) :
    Elsewhere (fun j => some j ∈ changes.map (·.allocation)) w
      (w.resizePagedKVBundle changes allocates).state := by
  unfold resizePagedKVBundle
  split
  · exact fun _ _ => rfl
  split
  · exact fun _ _ => rfl
  refine Outcome.forEach_keeps (P := Elsewhere _ w) ?_ w fun _ _ => rfl
  intro c hc w₁ hw₁
  unfold applyResize
  split
  · exact hw₁
  next i hi =>
  have hmem : some i ∈ changes.map (·.allocation) :=
    hi ▸ mem_map_of_mem hc
  refine Outcome.andThen_keeps
    (hw₁.trans (trimPages_elsewhere (fun j => some j ∈ _) hmem _)) ?_
  intro w₂ hw₂
  exact hw₂.trans (setPageEntitlement_elsewhere (fun j => some j ∈ _) hmem _ _)

/-- A call leaves the handles it is not made on alone. -/
theorem step_elsewhere (hstep : w.step op = some w') :
    Elsewhere op.touches w w' := by
  unfold step at hstep
  obtain ⟨out, happly, rfl⟩ := Option.map_eq_some_iff.mp hstep
  cases op with
  | reserve i k pages allocates =>
    simp only [apply] at happly
    split at happly
    · cases happly
    · cases happly
      exact fun _ hj => reserve_allocations_of_ne hj
  | setPageEntitlement i pages allocates =>
    cases happly
    exact setPageEntitlement_elsewhere (· = i) rfl pages allocates
  | cancelUnmappedEntitlement i =>
    cases happly
    show Elsewhere _ w (w.cancelUnmappedEntitlement i)
    unfold cancelUnmappedEntitlement
    split
    · exact fun _ _ => rfl
    · exact put_elsewhere (· = i) rfl _
  | materializePages i pages allocates =>
    cases happly
    exact materializePages_elsewhere (· = i) rfl pages allocates
  | materializeTokens i tokens allocates =>
    cases happly
    exact materializePages_elsewhere (· = i) rfl _ allocates
  | trimPages i pages =>
    cases happly
    exact trimPages_elsewhere (· = i) rfl pages
  | trimTokens i tokens =>
    cases happly
    exact trimPages_elsewhere (· = i) rfl _
  | bindRow i row =>
    cases happly
    exact bindRow_elsewhere (· = i) rfl row
  | unbindRow i =>
    cases happly
    exact fun j hj => unbindRow_allocations_of_ne hj
  | release i =>
    cases happly
    exact release_elsewhere (· = i) rfl
  | move dst src =>
    cases happly
    exact move_elsewhere dst src
  | reserveBundle reservations allocates =>
    simp only [apply] at happly
    split at happly
    · cases happly
      show Elsewhere _ w (w.reservePagedKVBundle reservations allocates).state
      unfold reservePagedKVBundle
      split
      · exact fun _ _ => rfl
      split
      · exact fun _ _ => rfl
      split
      · exact fun _ _ => rfl
      · exact reserveAll_elsewhere reservations w fun r hr =>
          mem_map_of_mem hr
    · cases happly
  | resizeBundle changes allocates =>
    cases happly
    exact resizePagedKVBundle_elsewhere changes allocates

/-- The only tables a call changes are those of the rows its own handles
are bound to afterwards. -/
def OwnRows (hs : ι → Prop) (w w' : PagedKV κ ι) : Prop :=
  ∀ k row, (∀ j, hs j → ¬ BoundTo (w'.allocations j) k row) →
    (w'.pools k).blockTables row = (w.pools k).blockTables row

omit [DecidableEq κ] [DecidableEq ι] in
theorem Moves.ownRows (h : Moves w w') : OwnRows hs w w' :=
  fun k row _ => congrFun (h.tables k) row

/-- A publication after an edit of the handle that touches no table. -/
theorem publish_ownRows (hs : ι → Prop) (hi : hs i)
    (htables : p.blockTables = (w.pools k).blockTables) (firstPage : Nat) :
    OwnRows hs w ((w.put k p i o).publish i firstPage) := by
  intro k' row hnot
  have hpub := publish_publishes (w := w.put k p i o) (i := i) firstPage
  have hown := hnot i hi
  rw [hpub.allocations] at hown
  rw [hpub.tables k' row hown, put_tables htables]

theorem materializePages_ownRows (hs : ι → Prop) (hi : hs i) (pages : Nat)
    (allocates : Bool) :
    OwnRows hs w (w.materializePages i pages allocates).state := by
  unfold materializePages
  split
  · exact fun _ _ _ => rfl
  split
  · exact fun _ _ _ => rfl
  split
  · exact fun _ _ _ => rfl
  split
  · exact fun _ _ _ => rfl
  · next out p htake =>
    exact publish_ownRows _ hi (takePages_tables htake) _

theorem bindRow_ownRows (hs : ι → Prop) (hi : hs i) (row : Int) :
    OwnRows hs w (w.bindRow i row).state := by
  unfold bindRow
  split
  · exact fun _ _ _ => rfl
  split
  · exact fun _ _ _ => rfl
  split
  · exact fun _ _ _ => rfl
  · next r p hacquire =>
    refine publish_ownRows _ hi ?_ _
    unfold acquireRow at hacquire
    split at hacquire
    · cases hacquire
    obtain ⟨-, hacquire⟩ := guard_ok.mp hacquire
    cases hacquire
    rfl

theorem step_ownRows [Fintype ι] (hinv : Inv w)
    (hstep : w.step op = some w') : OwnRows op.touches w w' := by
  obtain hmoves | ⟨i, pages, allocates, hi, rfl⟩ | ⟨i, row, hi, rfl⟩ :=
    step_cases hinv hstep
  · exact hmoves.ownRows
  · exact materializePages_ownRows _ hi pages allocates
  · exact bindRow_ownRows _ hi row

-- ============ the result

omit [DecidableEq ι] in
/-- Two allocations of one pool map different pages. -/
theorem PoolInv.pages_disjoint [Fintype ι] (h : PoolInv w k) {j : ι}
    {b : PagedKVAllocation κ} (hne : i ≠ j)
    (ha : w.allocations i = some a) (hka : a.pool = k)
    (hb : w.allocations j = some b) (hkb : b.pool = k) :
    a.pageIds.Disjoint b.pageIds := by
  classical
  have hle : pagesOf a + pagesOf b
      ≤ Multiset.range (w.pools k).spec.pageGroupCount := by
    rw [← h.pages_partition]
    refine le_trans ?_ (Multiset.le_add_left _ _)
    rw [← Finset.add_sum_erase _ _ (Finset.mem_univ i), ha, share_self _ hka]
    refine add_le_add_right ?_ _
    have hmem : j ∈ Finset.univ.erase i :=
      Finset.mem_erase.mpr ⟨hne.symm, Finset.mem_univ j⟩
    rw [← Finset.add_sum_erase _ _ hmem, hb, share_self _ hkb]
    exact Multiset.le_add_right _ _
  have hnodup := Multiset.nodup_of_le hle (Multiset.nodup_range _)
  unfold pagesOf at hnodup
  rw [Multiset.coe_add, Multiset.coe_nodup] at hnodup
  exact disjoint_of_nodup_append hnodup

/-- The block tables agree with the allocations: each bound allocation
finds its pages, in order, in the first entries of its row, which has
room for them; no call changes the row of a bound allocation it is not
made on; and two bound allocations of a pool publish disjoint pages. -/
def BlockTablesAgree (w : PagedKV κ ι) : Prop :=
  (∀ i a row, w.allocations i = some a → a.boundRow = some row →
    tableEntries w a.pool row a.mappedPageCount = a.pageIds
      ∧ a.mappedPageCount ≤ (w.pools a.pool).spec.logicalPageCapacity)
  ∧ (∀ op w', w.step op = some w' → ∀ j b row, ¬ op.touches j →
      w.allocations j = some b → b.boundRow = some row →
      w'.allocations j = some b
        ∧ (w'.pools b.pool).blockTables row = (w.pools b.pool).blockTables row)
  ∧ ∀ i j a b row row', i ≠ j → w.allocations i = some a →
      w.allocations j = some b → a.pool = b.pool →
      a.boundRow = some row → b.boundRow = some row' →
      (tableEntries w a.pool row a.mappedPageCount).Disjoint
        (tableEntries w b.pool row' b.mappedPageCount)

variable [Fintype ι]

theorem Mirrored.agree (hinv : Inv w) (h : Mirrored w) :
    BlockTablesAgree w := by
  refine ⟨?_, ?_, ?_⟩
  · intro i a row ha hrow
    have hmapped := (hinv a.pool).mapped_le i a ha rfl
    exact ⟨h.published i a row ha hrow, hmapped.trans (h.capped i a ha)⟩
  · intro op w' hstep j b row hnot hb hrow
    have hkept := step_elsewhere hstep j hnot
    rw [hb] at hkept
    refine ⟨hkept, step_ownRows hinv hstep b.pool row ?_⟩
    -- A handle of the call bound to the same row would be `j`.
    intro i hi hbound
    have hsame := (step_keeps hstep hinv b.pool).row_distinct i j row hbound
      ⟨b, hkept, rfl, hrow⟩
    exact hnot (hsame ▸ hi)
  · intro i j a b row row' hne ha hb hpool hrow hrow'
    rw [h.published i a row ha hrow, h.published j b row' hb hrow']
    exact (hinv a.pool).pages_disjoint hne ha rfl hb hpool.symm

omit [DecidableEq κ] [DecidableEq ι] [Fintype ι] in
theorem init_mirrored (specs : κ → PagedKVPoolSpec)
    (tables : κ → Nat → Nat → Nat) :
    Mirrored (init specs tables : PagedKV κ ι) where
  published := by
    intro i a row ha
    cases ha
  capped := by
    intro i a ha
    cases ha

/-- In every state of every run the block tables agree with the
allocations. -/
theorem block_tables_run (specs : κ → PagedKVPoolSpec)
    (tables : κ → Nat → Nat → Nat) (ops : List (Op κ ι)) (w : PagedKV κ ι)
    (hrun : run step (init specs tables) ops = some w) :
    BlockTablesAgree w := by
  have hboth : Inv w ∧ Mirrored w :=
    run_inv (P := fun w => Inv w ∧ Mirrored w)
      (fun _ _ _ hstep h => ⟨step_keeps hstep h.1, step_mirrored h.1 hstep h.2⟩)
      hrun ⟨init_inv specs tables, init_mirrored specs tables⟩
  exact hboth.2.agree hboth.1

attribute [local instance] handles_ne in
/-- A bound allocation is trimmed, and grows again beside another bound
one that took its page. -/
def regrowOps : List (Op Bool (Fin 3)) :=
  [ .reserve 0 true 2 true, .reserve 1 true 2 true,
    .bindRow 0 0, .materializePages 0 2 true,
    .trimPages 0 1, .materializePages 1 1 true, .bindRow 1 1,
    .materializePages 0 2 true ]

theorem block_tables_run_sample :
    ∃ w : PagedKV Bool (Fin 3),
      run step (init (fun _ => fourPages) (fun _ _ _ => 0)) regrowOps = some w
        ∧ tableEntries w true 0 2 = [0, 2] ∧ tableEntries w true 1 1 = [1]
        ∧ BlockTablesAgree w :=
  ⟨_, rfl, by decide, by decide, block_tables_run (fun _ => fourPages)
    (fun _ _ _ => 0) regrowOps _ rfl⟩

end Ginfer.Pool.PagedKV
