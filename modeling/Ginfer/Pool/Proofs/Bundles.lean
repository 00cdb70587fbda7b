/-
The bundles are all or nothing.

`reserve_paged_kv_bundle` and `resize_paged_kv_bundle` change several
pools. Both validate every member before they touch one, and differ in
what can still fail after that: a reservation builds its allocations one
by one, and a host allocation that fails half way unwinds those already
built, each giving back what it took; a resize has reserved every page
list beforehand, so its last loop cannot throw. In both cases a throw
leaves the state it started from, exactly, and a return has changed every
member as asked and nothing else.
-/
import Ginfer.Pool.Proofs.Effects

namespace Ginfer.Pool.PagedKV

open Ginfer.Lib List PagedKVPool Function

variable {κ ι : Type} [DecidableEq κ] [DecidableEq ι]
variable {w w' : PagedKV κ ι} {k : κ} {i : ι} {a : PagedKVAllocation κ}

-- ============ the reservation

/-- The pools entitle no more pages than they have. -/
def Entitles (w : PagedKV κ ι) : Prop :=
  ∀ k, (w.pools k).entitledPages ≤ (w.pools k).spec.pageGroupCount

omit [DecidableEq ι] in
theorem Inv.entitles [Fintype ι] (h : Inv w) : Entitles w :=
  fun k => (h k).entitled_le

theorem canReserve_room {p : PagedKVPool} {pages : Nat}
    (hle : p.entitledPages ≤ p.spec.pageGroupCount)
    (h : p.canReserve pages = true) :
    p.entitledPages + pages ≤ p.spec.pageGroupCount := by
  have hfits := p.spec.page_group_count_fits
  unfold canReserve at h
  simp only [Bool.and_eq_true, decide_eq_true_eq] at h
  have hroom := h.2
  rw [u32Sub_eq hle (by omega)] at hroom
  omega

theorem addEntitlement_entitled {p : PagedKVPool} {pages : Nat}
    (h : p.entitledPages + pages ≤ p.spec.pageGroupCount) :
    (p.addEntitlement pages).entitledPages = p.entitledPages + pages := by
  have hfits := p.spec.page_group_count_fits
  exact u32Add_eq (by omega)

/-- The state a reservation leaves. -/
def reserved (w : PagedKV κ ι) (i : ι) (k : κ) (pages : Nat) : PagedKV κ ι :=
  w.put k ((w.pools k).addEntitlement pages) i
    (some { pool := k, pageIds := [], pageEntitlement := pages,
            boundRow := none })

/-- Releasing what was just reserved gives the state before it. -/
theorem release_reserved {pages : Nat} (hle : Entitles w)
    (hcan : (w.pools k).canReserve pages = true)
    (hempty : w.allocations i = none) :
    (w.reserved i k pages).release i = w := by
  have hroom := canReserve_room (hle k) hcan
  have hfits := (w.pools k).spec.page_group_count_fits
  have hback : ((w.pools k).addEntitlement pages).replaceEntitlement pages 0
      = w.pools k := by
    have hentitled := addEntitlement_entitled hroom
    unfold replaceEntitlement
    rw [hentitled, u32Sub_eq (by omega) (by omega), u32Add_eq (by omega)]
    simp [addEntitlement]
  have hunbound : (w.reserved i k pages).unbindRow i
      = w.reserved i k pages := by
    unfold unbindRow reserved
    rw [put_allocations_self]
  unfold release
  rw [hunbound]
  unfold giveBack reserved
  rw [put_allocations_self]
  dsimp only
  rw [put_pools_self]
  unfold returnPages
  rw [if_pos isEmpty_nil, hback]
  unfold put
  simp only [update_idem]
  rw [← hempty, update_eq_self, update_eq_self]

/-- What a returned reservation bundle has done. -/
structure Reserved (w w' : PagedKV κ ι)
    (rs : List (PagedKVReservation κ ι)) : Prop where
  members : ∀ r ∈ rs, ∃ k, r.pool = some k
    ∧ w'.allocations r.handle
      = some { pool := k, pageIds := [],
               pageEntitlement := r.pageEntitlement, boundRow := none }
    ∧ w'.pools k = (w.pools k).addEntitlement r.pageEntitlement
    ∧ (w'.pools k).entitledPages = (w.pools k).entitledPages + r.pageEntitlement
  others : ∀ j, j ∉ rs.map (·.handle) → w'.allocations j = w.allocations j
  pools : ∀ k, some k ∉ rs.map (·.pool) → w'.pools k = w.pools k

/-- The members still to be reserved name distinct pools that can reserve,
and distinct empty handles. -/
def Reservable (w : PagedKV κ ι) (rs : List (PagedKVReservation κ ι)) :
    Prop :=
  (rs.map (·.pool)).Nodup ∧ (rs.map (·.handle)).Nodup
    ∧ ∀ r ∈ rs, w.allocations r.handle = none
      ∧ ∃ k, r.pool = some k ∧ (w.pools k).canReserve r.pageEntitlement = true

theorem Reservable.tail {r : PagedKVReservation κ ι}
    {rs : List (PagedKVReservation κ ι)} (h : Reservable w (r :: rs))
    (hk : r.pool = some k) :
    Reservable (w.reserved r.handle k r.pageEntitlement) rs := by
  obtain ⟨hpools, hhandles, hmembers⟩ := h
  rw [map_cons, nodup_cons] at hpools hhandles
  refine ⟨hpools.2, hhandles.2, ?_⟩
  intro r' hr'
  obtain ⟨hempty, k', hk', hcan⟩ := hmembers r' (.tail _ hr')
  have hhandle : r'.handle ≠ r.handle := by
    intro heq
    exact hhandles.1 (heq ▸ mem_map_of_mem hr')
  have hpool : k' ≠ k := by
    rintro rfl
    exact hpools.1 (hk.trans hk'.symm ▸ mem_map_of_mem hr')
  unfold reserved
  rw [put_allocations_of_ne _ _ _ _ _ hhandle]
  refine ⟨hempty, k', hk', ?_⟩
  rw [put_pools_of_ne _ _ _ _ _ hpool]
  exact hcan

theorem Entitles.reserved {pages : Nat} (h : Entitles w)
    (hcan : (w.pools k).canReserve pages = true) :
    Entitles (w.reserved i k pages) := by
  have hroom := canReserve_room (h k) hcan
  intro k'
  unfold PagedKV.reserved
  by_cases hk : k' = k
  · subst hk
    rw [put_pools_self, addEntitlement_entitled hroom]
    exact hroom
  · rw [put_pools_of_ne _ _ _ _ _ hk]
    exact h k'

/-- The reservation loop reserves every member, or throws into the state
it started from. -/
theorem reserveAll_atomic : ∀ (rs : List (PagedKVReservation κ ι))
    (w : PagedKV κ ι), Entitles w → Reservable w rs →
    (reserveAll rs w).Ends (fun w' => Reserved w w' rs)
      (fun _ w' => w' = w) := by
  intro rs
  induction rs with
  | nil =>
    intro w _ _
    exact ⟨by simp, fun _ _ => rfl, fun _ _ => rfl⟩
  | cons r rest ih =>
    intro w hle hrs
    obtain ⟨hempty, k, hk, hcan⟩ := hrs.2.2 r (.head _)
    have hroom := canReserve_room (hle k) hcan
    have hrest := ih (w.reserved r.handle k r.pageEntitlement)
      (hle.reserved hcan) (hrs.tail hk)
    have hreserve : w.reserve r.handle k r.pageEntitlement r.allocates
        = if r.allocates then .ok (w.reserved r.handle k r.pageEntitlement)
          else .throw .badAlloc w := by
      unfold reserve
      rw [hcan, if_neg (by decide)]
      cases r.allocates with
      | false => rfl
      | true => rfl
    unfold reserveAll
    rw [hk]
    dsimp only
    rw [hreserve]
    cases halloc : r.allocates with
    | false => exact rfl
    | true =>
      rw [if_pos rfl]
      dsimp only
      cases hall : reserveAll rest
          (w.reserved r.handle k r.pageEntitlement) with
      | throw e w₁ =>
        rw [hall] at hrest
        obtain rfl : w₁ = w.reserved r.handle k r.pageEntitlement :=
          hrest
        exact release_reserved hle hcan hempty
      | ok w₁ =>
        rw [hall] at hrest
        have hdone : Reserved (w.reserved r.handle k
          r.pageEntitlement) w₁ rest := hrest
        obtain ⟨hpools, hhandles, -⟩ := hrs
        rw [map_cons, nodup_cons] at hpools hhandles
        refine ⟨?_, ?_, ?_⟩
        · intro r' hr'
          rcases mem_cons.mp hr' with rfl | hr'
          · refine ⟨k, hk, ?_, ?_, ?_⟩
            · rw [hdone.others _ hhandles.1]
              exact put_allocations_self ..
            · rw [hdone.pools k (hk ▸ hpools.1)]
              exact put_pools_self ..
            · rw [hdone.pools k (hk ▸ hpools.1)]
              show ((w.put _ _ _ _).pools k).entitledPages = _
              rw [put_pools_self]
              exact addEntitlement_entitled hroom
          · obtain ⟨k', hk', halloc', hpool', hent'⟩ :=
              hdone.members r' hr'
            have hne : k' ≠ k := by
              rintro rfl
              exact hpools.1 (hk.trans hk'.symm ▸ mem_map_of_mem hr')
            have hsame : (w.reserved r.handle k
                r.pageEntitlement).pools k' = w.pools k' :=
              put_pools_of_ne _ _ _ _ _ hne
            rw [hsame] at hpool' hent'
            exact ⟨k', hk', halloc', hpool', hent'⟩
        · intro j hj
          simp only [map_cons, mem_cons, not_or] at hj
          rw [hdone.others j hj.2]
          exact put_allocations_of_ne _ _ _ _ _ hj.1
        · intro k' hk'
          simp only [map_cons, mem_cons, not_or] at hk'
          rw [hdone.pools k' hk'.2]
          refine put_pools_of_ne _ _ _ _ _ ?_
          rintro rfl
          exact hk'.1 hk.symm

omit [DecidableEq ι] in
/-- What `validate_distinct_pools` accepts. -/
theorem validateDistinctPools_ok : ∀ (rs : List (PagedKVReservation κ ι))
    (seen : List κ), validateDistinctPools seen rs = .ok () →
    (∀ r ∈ rs, ∃ k, r.pool = some k ∧ k ∉ seen)
      ∧ (rs.map (·.pool)).Nodup := by
  intro rs
  induction rs with
  | nil => intro _ _; simp
  | cons r rest ih =>
    intro seen h
    unfold validateDistinctPools at h
    split at h
    · cases h
    next k hk =>
    split at h
    · cases h
    split at h
    · cases h
    next hfresh =>
    obtain ⟨hrest, hnodup⟩ := ih (k :: seen) h
    refine ⟨?_, ?_⟩
    · intro r' hr'
      rcases mem_cons.mp hr' with rfl | hr'
      · exact ⟨k, hk, hfresh⟩
      · obtain ⟨k', hk', hnot⟩ := hrest r' hr'
        exact ⟨k', hk', fun h => hnot (.tail _ h)⟩
    · rw [map_cons, nodup_cons]
      refine ⟨?_, hnodup⟩
      intro hmem
      obtain ⟨r', hr', heq⟩ := mem_map.mp hmem
      obtain ⟨k', hk', hnot⟩ := hrest r' hr'
      have : k' = k := by
        rw [hk', hk] at heq
        exact Option.some.inj heq
      exact hnot (this ▸ (.head _))

theorem reservePagedKVBundle_atomic {rs : List (PagedKVReservation κ ι)}
    {allocates : Bool} (hle : Entitles w) (hnodup : (rs.map (·.handle)).Nodup)
    (hempty : ∀ r ∈ rs, w.allocations r.handle = none) :
    (w.reservePagedKVBundle rs allocates).Ends
      (fun w' => Reserved w w' rs) (fun _ w' => w' = w) := by
  unfold reservePagedKVBundle
  split
  · exact rfl
  next hvalid =>
  obtain ⟨hpools, hdistinct⟩ := validateDistinctPools_ok rs [] hvalid
  split
  · exact rfl
  next hcan =>
  split
  · exact rfl
  refine reserveAll_atomic rs w hle ⟨hdistinct, hnodup, ?_⟩
  intro r hr
  obtain ⟨k, hk, -⟩ := hpools r hr
  refine ⟨hempty r hr, k, hk, ?_⟩
  simp only [any_eq_true, not_exists, not_and] at hcan
  have := hcan r hr
  rw [hk] at this
  simpa using this

-- ============ the resize

/-- Change `c` names allocation `a` of handle `i`, with extents the last
loop can apply. -/
structure Names (w : PagedKV κ ι) (c : PagedKVResize ι) (i : ι)
    (a : PagedKVAllocation κ) : Prop where
  handle : c.allocation = some i
  live : w.allocations i = some a
  mapped : c.mappedPages ≤ a.mappedPageCount
  extents : c.mappedPages ≤ c.pageEntitlement
  can : (w.pools a.pool).canReplaceEntitlement a.pageEntitlement
    c.pageEntitlement = true

/-- The changes name live allocations over distinct pools, none of them
in `seen`. -/
def Resizable (w : PagedKV κ ι) : List κ → List (PagedKVResize ι) → Prop
  | _, [] => True
  | seen, c :: rest => ∃ i a, Names w c i a ∧ a.pool ∉ seen
    ∧ Resizable w (a.pool :: seen) rest

theorem validateResize_ok : ∀ (cs : List (PagedKVResize ι))
    (seen : List (ι × κ)), validateResize w seen cs = .ok () →
    Resizable w (seen.map Prod.snd) cs := by
  intro cs
  induction cs with
  | nil => intro _ _; trivial
  | cons c rest ih =>
    intro seen h
    unfold validateResize at h
    split at h
    · cases h
    next i a hnamed =>
    split at h
    · cases h
    next hextents =>
    split at h
    · cases h
    next hfresh =>
    split at h
    · cases h
    next hcan =>
    obtain ⟨j, hj, hmap⟩ := Option.bind_eq_some_iff.mp hnamed
    obtain ⟨b, hb, hpair⟩ := Option.map_eq_some_iff.mp hmap
    cases hpair
    refine ⟨i, a, ⟨hj, hb, by omega, by omega, by simpa using hcan⟩, ?_, ih _ h⟩
    intro hmem
    obtain ⟨s, hs, hpool⟩ := mem_map.mp hmem
    refine hfresh (any_eq_true.mpr ⟨s, hs, ?_⟩)
    simp [hpool]

/-- `w` and `w'` agree on everything over pools that are not in `seen`. -/
structure AgreeOff (seen : List κ) (w w' : PagedKV κ ι) : Prop where
  allocations : ∀ i a, w.allocations i = some a → a.pool ∉ seen →
    w'.allocations i = some a
  pools : ∀ k, k ∉ seen → w'.pools k = w.pools k

omit [DecidableEq κ] [DecidableEq ι] in
theorem Names.agree {c : PagedKVResize ι} {seen : List κ}
    (h : Names w c i a) (hagree : AgreeOff seen w w')
    (hfresh : a.pool ∉ seen) : Names w' c i a where
  handle := h.handle
  live := hagree.allocations i a h.live hfresh
  mapped := h.mapped
  extents := h.extents
  can := by
    rw [hagree.pools a.pool hfresh]
    exact h.can

/-- The pool after one change: the pages beyond the new extent come back,
and the entitlement is replaced. -/
def resizedPool (p : PagedKVPool) (a : PagedKVAllocation κ)
    (c : PagedKVResize ι) : PagedKVPool :=
  (p.returnPages (a.pageIds.drop c.mappedPages)).replaceEntitlement
    a.pageEntitlement c.pageEntitlement

/-- The allocation after one change. -/
def resizedAllocation (a : PagedKVAllocation κ) (c : PagedKVResize ι) :
    PagedKVAllocation κ :=
  { a with
    pageIds := a.pageIds.take c.mappedPages
    pageEntitlement := c.pageEntitlement }

/-- One change of the last loop: it returns, with exactly this. -/
theorem applyResize_names {c : PagedKVResize ι} (h : Names w c i a) :
    applyResize c w = .ok (w.put a.pool (resizedPool (w.pools a.pool) a c) i
      (some (resizedAllocation a c))) := by
  have htrim : w.trimPages i c.mappedPages = .ok (w.put a.pool
      ((w.pools a.pool).returnPages (a.pageIds.drop c.mappedPages)) i
      (some { a with pageIds := a.pageIds.take c.mappedPages })) := by
    have hmapped := h.mapped
    unfold trimPages
    rw [h.live]
    dsimp only
    rw [if_neg (by omega)]
    split
    · next heq =>
      -- Nothing to trim: the state is put back as it was.
      have hlength : a.pageIds.length ≤ c.mappedPages := le_of_eq
        (show a.pageIds.length = c.mappedPages from heq.symm)
      have hlive := h.live
      rw [take_of_length_le hlength, drop_of_length_le hlength]
      unfold returnPages put
      rw [if_pos isEmpty_nil, update_eq_self]
      show Outcome.ok w = .ok ⟨w.pools, update _ i (some a)⟩
      rw [← hlive, update_eq_self]
    · rfl
  have hextents := h.extents
  have hmapped := h.mapped
  have hlength : a.mappedPageCount = a.pageIds.length := rfl
  have hcan : ((w.pools a.pool).returnPages
      (a.pageIds.drop c.mappedPages)).canReplaceEntitlement
        a.pageEntitlement c.pageEntitlement = true := by
    obtain ⟨hspec, -, hent, -⟩ := returnPages_books
      (p := w.pools a.pool) (a.pageIds.drop c.mappedPages)
    have hold := h.can
    unfold canReplaceEntitlement at hold ⊢
    rw [hspec, hent]
    exact hold
  unfold applyResize
  rw [h.handle]
  dsimp only
  rw [htrim]
  show setPageEntitlement _ i c.pageEntitlement true = _
  unfold setPageEntitlement
  rw [put_allocations_self]
  dsimp only
  rw [if_neg (by
    simp only [PagedKVAllocation.mappedPageCount, length_take]
    omega)]
  rw [put_pools_self, hcan]
  simp only [Bool.not_true, Bool.false_eq_true, if_false]
  unfold put
  simp only [update_idem]
  rfl

/-- What a returned resize bundle has done. -/
structure Resized (w w' : PagedKV κ ι) (cs : List (PagedKVResize ι)) :
    Prop where
  members : ∀ c ∈ cs, ∃ i a, c.allocation = some i ∧ w.allocations i = some a
    ∧ w'.allocations i = some (resizedAllocation a c)
    ∧ w'.pools a.pool = resizedPool (w.pools a.pool) a c
  others : ∀ j, some j ∉ cs.map (·.allocation) →
    w'.allocations j = w.allocations j
  pools : ∀ k, (∀ c ∈ cs, ∀ i a, c.allocation = some i →
    w.allocations i = some a → a.pool ≠ k) → w'.pools k = w.pools k

/-- The last loop over changes that are resizable in `w₀`, from a state
that agrees with it off the pools already changed. -/
theorem applyResize_all (w₀ : PagedKV κ ι) :
    ∀ (cs : List (PagedKVResize ι)) (seen : List κ) (w : PagedKV κ ι),
      AgreeOff seen w₀ w → Resizable w₀ seen cs →
      ∃ w', Outcome.forEach applyResize cs w = .ok w'
        ∧ (∀ c ∈ cs, ∃ i a, c.allocation = some i
        ∧ w₀.allocations i = some a ∧ a.pool ∉ seen
        ∧ w'.allocations i = some (resizedAllocation a c)
        ∧ w'.pools a.pool = resizedPool (w₀.pools a.pool) a c)
        ∧ (∀ j, some j ∉ cs.map (·.allocation) →
        w'.allocations j = w.allocations j)
        ∧ ∀ k, (∀ c ∈ cs, ∀ i a, c.allocation = some i →
        w₀.allocations i = some a → a.pool ≠ k) →
        w'.pools k = w.pools k := by
  intro cs
  induction cs with
  | nil =>
    intro seen w _ _
    exact ⟨w, rfl, by simp, fun _ _ => rfl, fun _ _ => rfl⟩
  | cons c rest ih =>
    rintro seen w hagree ⟨i, a, hnames, hfresh, hrest⟩
    have hpool := hagree.pools a.pool hfresh
    have hstep := applyResize_names (hnames.agree hagree hfresh)
    rw [hpool] at hstep
    -- The handle and the pool of this change are now among the changed.
    have hagree' : AgreeOff (a.pool :: seen) w₀ (w.put a.pool
        (resizedPool (w₀.pools a.pool) a c) i
        (some (resizedAllocation a c))) := by
      refine ⟨?_, ?_⟩
      · intro j b hb hoff
        obtain ⟨hne, hoff⟩ := ne_and_not_mem_of_not_mem_cons hoff
        have hj : j ≠ i := by
          rintro rfl
          rw [hnames.live] at hb
          cases hb
          exact hne rfl
        rw [put_allocations_of_ne _ _ _ _ _ hj]
        exact hagree.allocations j b hb hoff
      · intro k hoff
        obtain ⟨hne, hoff⟩ := ne_and_not_mem_of_not_mem_cons hoff
        rw [put_pools_of_ne _ _ _ _ _ hne]
        exact hagree.pools k hoff
    obtain ⟨w', hall, hmembers, hothers, hpools⟩ := ih _ _ hagree' hrest
    -- No later change names this one's handle or pool.
    have hlater : ∀ c' ∈ rest, ∀ i' a', c'.allocation = some i' →
        w₀.allocations i' = some a' → i' ≠ i ∧ a'.pool ≠ a.pool := by
      intro c' hc' i' a' hi' ha'
      obtain ⟨i₁, a₁, hi₁, ha₁, hnot, -, -⟩ := hmembers c' hc'
      rw [hi'] at hi₁
      cases hi₁
      rw [ha'] at ha₁
      cases ha₁
      have hne := (ne_and_not_mem_of_not_mem_cons hnot).1
      refine ⟨?_, hne⟩
      rintro rfl
      rw [hnames.live] at ha'
      cases ha'
      exact hne rfl
    refine ⟨w', ?_, ?_, ?_, ?_⟩
    · unfold Outcome.forEach
      rw [hstep]
      exact hall
    · intro c' hc'
      rcases mem_cons.mp hc' with rfl | hc'
      · refine ⟨i, a, hnames.handle, hnames.live, hfresh, ?_, ?_⟩
        · rw [hothers i]
          · exact put_allocations_self ..
          · intro hmem
            obtain ⟨c'', hc'', heq⟩ := mem_map.mp hmem
            exact (hlater c'' hc'' i a heq hnames.live).1 rfl
        · rw [hpools a.pool]
          · exact put_pools_self ..
          · intro c'' hc'' i' a' hi' ha'
            exact (hlater c'' hc'' i' a' hi' ha').2
      · obtain ⟨i', a', hi', ha', hnot, halloc, hpool'⟩ :=
          hmembers c' hc'
        exact ⟨i', a', hi', ha', fun h => hnot (.tail _ h), halloc, hpool'⟩
    · intro j hj
      simp only [map_cons, mem_cons, not_or] at hj
      rw [hothers j hj.2]
      refine put_allocations_of_ne _ _ _ _ _ ?_
      rintro rfl
      exact hj.1 hnames.handle.symm
    · intro k hk
      rw [hpools k fun c' hc' => hk c' (.tail _ hc')]
      refine put_pools_of_ne _ _ _ _ _ ?_
      rintro rfl
      exact hk c (.head _) i a hnames.handle hnames.live rfl

theorem resizePagedKVBundle_atomic {cs : List (PagedKVResize ι)}
    {allocates : Bool} :
    (w.resizePagedKVBundle cs allocates).Ends
      (fun w' => Resized w w' cs) (fun _ w' => w' = w) := by
  unfold resizePagedKVBundle
  split
  · exact rfl
  next hvalid =>
  split
  · exact rfl
  have hresizable : Resizable w [] cs := validateResize_ok cs [] hvalid
  obtain ⟨w', hall, hmembers, hothers, hpools⟩ := applyResize_all w cs [] w
    ⟨fun _ _ h _ => h, fun _ _ => rfl⟩ hresizable
  rw [hall]
  refine ⟨?_, hothers, hpools⟩
  intro c hc
  obtain ⟨i, a, hi, ha, -, halloc, hpool⟩ := hmembers c hc
  exact ⟨i, a, hi, ha, halloc, hpool⟩

-- ============ the result

/-- Bundle atomicity, in every reachable state: a reservation bundle into
fresh handles and a resize bundle, of any members, either return with the
whole change made in every pool and nothing else touched, or throw and
leave every pool and every allocation as it was. -/
theorem bundles_atomic [Fintype ι] (specs : κ → PagedKVPoolSpec)
    (tables : κ → Nat → Nat → Nat) (ops : List (Op κ ι)) (w : PagedKV κ ι)
    (hrun : run step (init specs tables) ops = some w) :
    (∀ (rs : List (PagedKVReservation κ ι)) (allocates : Bool),
      (rs.map (·.handle)).Nodup →
      (∀ r ∈ rs, w.allocations r.handle = none) →
      (w.reservePagedKVBundle rs allocates).Ends
        (fun w' => Reserved w w' rs) (fun _ w' => w' = w))
    ∧ ∀ (cs : List (PagedKVResize ι)) (allocates : Bool),
      (w.resizePagedKVBundle cs allocates).Ends
        (fun w' => Resized w w' cs) (fun _ w' => w' = w) := by
  have hinv : Inv w := run_inv (fun _ _ _ h => step_keeps h) hrun
    (init_inv specs tables)
  refine ⟨?_, ?_⟩
  · intro rs allocates hnodup hempty
    exact reservePagedKVBundle_atomic hinv.entitles hnodup hempty
  · intro cs allocates
    exact resizePagedKVBundle_atomic

attribute [local instance] handles_ne in
/-- Two members, of which the second cannot be built. -/
def halfBundle : List (PagedKVReservation Bool (Fin 3)) :=
  [⟨0, some true, 3, true⟩, ⟨1, some false, 2, false⟩]

/-- The first member of the half bundle is given back. -/
theorem bundles_atomic_unwound :
    ∃ w : PagedKV Bool (Fin 3),
      run step (init (fun _ => fourPages) (fun _ _ _ => 0))
          [.reserve 2 true 1 true] = some w
        ∧ (w.reservePagedKVBundle halfBundle true).thrown = some .badAlloc
        ∧ (w.reservePagedKVBundle halfBundle true).Ends
          (fun w' => Reserved w w' halfBundle) (fun _ w' => w' = w) := by
  refine ⟨_, rfl, rfl, ?_⟩
  refine (bundles_atomic (fun _ => fourPages) (fun _ _ _ => 0)
    [.reserve 2 true 1 true] _ ?_).1 halfBundle true ?_ ?_
  · rfl
  · decide
  · intro r hr
    unfold halfBundle at hr
    rcases List.mem_cons.mp hr with rfl | hr
    · rfl
    · rw [List.mem_singleton.mp hr]
      rfl

end Ginfer.Pool.PagedKV
