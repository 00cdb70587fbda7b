/-
Exactly-once completion and capacity release.

# The invariant, in two halves

`Accounting` is about numbers: the counter is the number of requests that
hold a place, and each request's flags are consistent with how often it
was completed and decremented (`RequestState.Ok`). Its key line is that
`capacity_released` is set once, by whichever of the consumer and the
worker comes second, and that one decrement follows.

`Placement` is about custody: a request that was accepted and is not done
is in `pending_`, in a slot, or in the worker's hands — in exactly one of
them, once. `fail_all` empties the first two into the third and refuses
every later submission under the same lock, so when the worker is gone
nothing is left.

`exactly_once` reads both off every reachable state.
-/
import Ginfer.Lib.Owners
import Ginfer.Lib.Runs
import Ginfer.Executor.Completion

namespace Ginfer.Executor

open Ginfer.Lib List Function RequestState Prod

-- ============ the invariants

/-- The flags of one request against its counts. -/
structure RequestState.Ok (q : RequestState) : Prop where
  absent : q.stage = .absent → q = .absent
  reserved : q.stage = .reserved →
    q = { RequestState.absent with stage := .reserved }
  refused : q.stage = .refused →
    q.done = false ∧ q.completions = 0 ∧ q.releasing + q.decrements = 1
  released : q.stage = .accepted →
    q.releasing + q.decrements = q.capacityReleased.toNat
  completed : q.stage = .accepted → q.completions = q.done.toNat
  released_done : q.capacityReleased = true →
    q.done = true ∧ q.consumerReleased = true
  marking_done : q.marking = true → q.done = true
  settled : q.stage = .accepted → q.done = true →
    q.consumerReleased = true → q.marking = false → q.capacityReleased = true

/-- Does the request hold a place: reserved, and not yet given back. -/
def RequestState.held (q : RequestState) : Nat :=
  if q.stage ≠ .absent ∧ q.decrements = 0 then 1 else 0

namespace State

/-- The counter against the requests. -/
structure Accounting (cfg : Config) (s : State) : Prop where
  fresh : ∀ r, s.nextRequestId ≤ r → s.requests r = .absent
  ok : ∀ r, (s.requests r).Ok
  outstanding_eq : s.outstanding
    = ∑ r ∈ Finset.range s.nextRequestId, (s.requests r).held
  outstanding_le : s.outstanding ≤ cfg.maxOutstanding

/-- Everywhere the executor keeps requests that are not done. -/
def places (s : State) : List Nat :=
  s.pending ++ (s.slots.map snd ++ s.todo)

/-- Custody of the requests. -/
structure Placement (s : State) : Prop where
  nodup : s.places.Nodup
  accepted : ∀ r ∈ s.places, (s.requests r).stage = .accepted
  placed : ∀ r, (s.requests r).stage = .accepted →
    (s.requests r).done = false → r ∈ s.places
  marking : ∀ r ∈ s.places, (s.requests r).done = true →
    (s.requests r).marking = true
  head : ∀ r, (s.requests r).marking = true → ∃ rest, s.todo = r :: rest
  closed : s.worker = .failing ∨ s.worker = .exited →
    s.failed = true ∧ s.pending = [] ∧ s.slots = []
  exited : s.worker = .exited → s.todo = []

/-- Both halves. -/
structure Inv (cfg : Config) (s : State) : Prop where
  accounting : Accounting cfg s
  placement : Placement s

-- ============ accounting

section

variable {cfg : Config} {s s' : State} {r : Nat} {q : RequestState}

variable (h : Accounting cfg s)

include h

/-- A submitted request is below the next id. -/
theorem Accounting.lt_next
    (hr : (s.requests r).stage ≠ .absent) : r < s.nextRequestId := by
  by_contra hge
  exact hr (by rw [h.fresh r (by omega)]; rfl)

/-- A request that holds a place is counted. -/
theorem Accounting.held_le (hr : (s.requests r).stage ≠ .absent) :
    (s.requests r).held ≤ s.outstanding := by
  rw [h.outstanding_eq]
  exact Finset.single_le_sum (f := fun j => (s.requests j).held)
    (fun _ _ => Nat.zero_le _) (Finset.mem_range.mpr (h.lt_next hr))

/-- Replacing one submitted request, the counter moving by what it
holds. -/
theorem Accounting.replace (hrequests : s'.requests = update s.requests r q)
    (hnext : s'.nextRequestId = s.nextRequestId)
    (hr : (s.requests r).stage ≠ .absent) (hq : q.Ok)
    (hcount : s'.outstanding + (s.requests r).held = s.outstanding + q.held)
    (hheld : q.held ≤ (s.requests r).held) : Accounting cfg s' := by
  have hlt := h.lt_next hr
  have hmove := total_update_on (Finset.range s.nextRequestId) s.requests
    held r (Finset.mem_range.mpr hlt) q
  constructor
  case fresh =>
    intro j hj
    rw [hnext] at hj
    rw [hrequests, update_of_ne (by omega)]
    exact h.fresh j hj
  case ok =>
    intro j
    rw [hrequests]
    by_cases hj : j = r
    · subst hj
      rw [update_self]
      exact hq
    · rw [update_of_ne hj]
      exact h.ok j
  case outstanding_eq =>
    rw [hnext, hrequests]
    have hold := h.outstanding_eq
    omega
  case outstanding_le =>
    have hle := h.outstanding_le
    omega

/-- The same when nothing the counter depends on changes. -/
theorem Accounting.replace_flags
    (hrequests : s'.requests = update s.requests r q)
    (hnext : s'.nextRequestId = s.nextRequestId)
    (hcount : s'.outstanding = s.outstanding)
    (hr : (s.requests r).stage ≠ .absent) (hstage : q.stage ≠ .absent)
    (hdec : q.decrements = (s.requests r).decrements) (hq : q.Ok) :
    Accounting cfg s' := by
  have hheld : q.held = (s.requests r).held := by
    unfold held
    rw [hdec]
    simp [hr, hstage]
  exact h.replace hrequests hnext hr hq (by rw [hcount, hheld]) (le_of_eq hheld)

/-- Steps that touch no request and no counter. -/
theorem Accounting.keep (hrequests : s'.requests = s.requests)
    (hnext : s'.nextRequestId = s.nextRequestId)
    (hcount : s'.outstanding = s.outstanding) : Accounting cfg s' := by
  constructor
  case fresh => rw [hrequests, hnext]; exact h.fresh
  case ok => rw [hrequests]; exact h.ok
  case outstanding_eq => rw [hrequests, hnext, hcount]; exact h.outstanding_eq
  case outstanding_le => rw [hcount]; exact h.outstanding_le

omit h

end

-- ============ placement

section

variable {s s' : State} {r : Nat} {q : RequestState}

/-- Replacing one request: custody of the others is as it was, and the
replaced one is where its new flags say. -/
theorem Placement.replace (h : Placement s)
    (hrequests : s'.requests = update s.requests r q)
    (hnodup : s'.places.Nodup)
    (hothers : ∀ j, j ≠ r → (j ∈ s'.places ↔ j ∈ s.places))
    (hin : r ∈ s'.places →
      q.stage = .accepted ∧ (q.done = true → q.marking = true))
    (hout : q.stage = .accepted → q.done = false → r ∈ s'.places)
    (hhead : q.marking = true → ∃ rest, s'.todo = r :: rest)
    (hheads : ∀ j, j ≠ r → (s.requests j).marking = true →
      ∃ rest, s'.todo = j :: rest)
    (hclosed : s'.worker = .failing ∨ s'.worker = .exited →
      s'.failed = true ∧ s'.pending = [] ∧ s'.slots = [])
    (hexited : s'.worker = .exited → s'.todo = []) : Placement s' := by
  have hself : s'.requests r = q := by
    rw [hrequests, update_self]
  have hrest : ∀ j, j ≠ r → s'.requests j = s.requests j := by
    intro j hj
    rw [hrequests, update_of_ne hj]
  constructor
  case nodup => exact hnodup
  case accepted =>
    intro j hj
    by_cases hjr : j = r
    · subst hjr
      rw [hself]
      exact (hin hj).1
    · rw [hrest j hjr]
      exact h.accepted j ((hothers j hjr).mp hj)
  case placed =>
    intro j hacc hdone
    by_cases hjr : j = r
    · subst hjr
      rw [hself] at hacc hdone
      exact hout hacc hdone
    · rw [hrest j hjr] at hacc hdone
      exact (hothers j hjr).mpr (h.placed j hacc hdone)
  case marking =>
    intro j hj hdone
    by_cases hjr : j = r
    · subst hjr
      rw [hself] at hdone ⊢
      exact (hin hj).2 hdone
    · rw [hrest j hjr] at hdone ⊢
      exact h.marking j ((hothers j hjr).mp hj) hdone
  case head =>
    intro j hj
    by_cases hjr : j = r
    · subst hjr
      rw [hself] at hj
      exact hhead hj
    · rw [hrest j hjr] at hj
      exact hheads j hjr hj
  case closed => exact hclosed
  case exited => exact hexited

/-- Replacing a request's flags without moving it. -/
theorem Placement.replace_flags (h : Placement s)
    (hrequests : s'.requests = update s.requests r q)
    (hpending : s'.pending = s.pending) (hslots : s'.slots = s.slots)
    (htodo : s'.todo = s.todo) (hworker : s'.worker = s.worker)
    (hfailed : s'.failed = s.failed)
    (hstage : q.stage = .accepted ↔ (s.requests r).stage = .accepted)
    (hdone : q.done = (s.requests r).done)
    (hmark : q.marking = (s.requests r).marking) : Placement s' := by
  have hplaces : s'.places = s.places := by
    unfold places
    rw [hpending, hslots, htodo]
  refine h.replace hrequests ?_ ?_ ?_ ?_ ?_ ?_ ?_ ?_
  · rw [hplaces]; exact h.nodup
  · intro j _
    rw [hplaces]
  · intro hr
    rw [hplaces] at hr
    rw [hdone, hmark]
    exact ⟨hstage.mpr (h.accepted r hr), h.marking r hr⟩
  · intro hacc hd
    rw [hplaces]
    exact h.placed r (hstage.mp hacc) (hdone ▸ hd)
  · rw [hmark, htodo]; exact h.head r
  · intro j _
    rw [htodo]
    exact h.head j
  · rw [hworker, hfailed, hpending, hslots]; exact h.closed
  · rw [hworker, htodo]; exact h.exited

/-- Moving requests between places, none of them being completed. -/
theorem Placement.move (h : Placement s) (hempty : s.todo = [])
    (hrequests : s'.requests = s.requests) (hplaces : s'.places.Perm s.places)
    (hclosed : s'.worker = .failing ∨ s'.worker = .exited →
      s'.failed = true ∧ s'.pending = [] ∧ s'.slots = [])
    (hexited : s'.worker = .exited → s'.todo = []) : Placement s' := by
  have hnone : ∀ j, (s.requests j).marking ≠ true := by
    intro j hmark
    obtain ⟨rest, hrest⟩ := h.head j hmark
    rw [hempty] at hrest
    cases hrest
  constructor
  case nodup => exact hplaces.nodup_iff.mpr h.nodup
  case accepted =>
    intro j hj
    rw [hrequests]
    exact h.accepted j (hplaces.mem_iff.mp hj)
  case placed =>
    intro j hacc hdone
    rw [hrequests] at hacc hdone
    exact hplaces.mem_iff.mpr (h.placed j hacc hdone)
  case marking =>
    intro j hj hdone
    rw [hrequests] at hdone ⊢
    exact h.marking j (hplaces.mem_iff.mp hj) hdone
  case head =>
    intro j hj
    rw [hrequests] at hj
    exact absurd hj (hnone j)
  case closed => exact hclosed
  case exited => exact hexited

/-- The places, the front of `todo` first. -/
theorem places_cons {rest : List Nat} (htodo : s.todo = r :: rest) :
    s.places.Perm
      (r :: (s.pending ++ (s.slots.map snd ++ rest))) := by
  unfold places
  rw [htodo, ← append_assoc, ← append_assoc]
  exact perm_middle

end

-- ============ the steps

section

variable {cfg : Config} {s s' : State} {r : Nat}

/-- A request that was just reserved. -/
theorem reserved_ok :
    RequestState.Ok { RequestState.absent with stage := .reserved } := by
  constructor <;> simp [absent]

/-- A request that is not accepted is nowhere. -/
theorem Placement.not_mem (h : Placement s)
    (hstage : (s.requests r).stage ≠ .accepted) : r ∉ s.places :=
  fun hr => hstage (h.accepted r hr)

theorem submitReserve_inv (h : Inv cfg s) : Inv cfg (s.submitReserve cfg) := by
  unfold submitReserve
  split
  · exact h
  split
  · exact h
  next hfull =>
  have hacc := h.accounting
  have hplace := h.placement
  have hfresh := hacc.fresh s.nextRequestId (le_refl _)
  have hadd : sizeAdd s.outstanding 1 = s.outstanding + 1 := by
    refine sizeAdd_eq ?_
    have hfits := cfg.max_outstanding_fits
    omega
  have hnot : s.nextRequestId ∉ s.places :=
    hplace.not_mem (by rw [hfresh]; decide)
  constructor
  · constructor
    case fresh =>
      intro j hj
      have hj' : s.nextRequestId + 1 ≤ j := hj
      exact (update_of_ne (by omega) _ _).trans (hacc.fresh j (by omega))
    case ok =>
      intro j
      simp only [setRequest]
      by_cases hj : j = s.nextRequestId
      · subst hj
        rw [update_self]
        exact reserved_ok
      · rw [update_of_ne hj]
        exact hacc.ok j
    case outstanding_eq =>
      simp only [setRequest]
      rw [hadd, Finset.sum_range_succ, update_self, hacc.outstanding_eq]
      congr 1
      refine Finset.sum_congr rfl ?_
      intro j hj
      have hlt := Finset.mem_range.mp hj
      rw [update_of_ne (by omega)]
    case outstanding_le =>
      simp only
      rw [hadd]
      omega
  · exact hplace.replace rfl hplace.nodup (fun _ _ => Iff.rfl)
      (fun hr => absurd hr hnot) (fun hr => absurd hr (by decide))
      (fun hr => absurd hr (by decide)) (fun j _ => hplace.head j)
      hplace.closed hplace.exited

theorem submitFails_inv (h : Inv cfg s)
    (hstage : (s.requests r).stage = .reserved) :
    Inv cfg (s.setRequest r { s.requests r with
      stage := .refused, releasing := (s.requests r).releasing + 1 }) := by
  have hq := (h.accounting.ok r).reserved hstage
  constructor
  · refine h.accounting.replace_flags rfl rfl rfl (by simp [hstage])
      (by simp) rfl ?_
    rw [hq]
    constructor <;> simp [absent]
  · exact h.placement.replace_flags rfl rfl rfl rfl rfl rfl
      (by simp [hstage]) rfl rfl

theorem submitEnqueue_inv (h : Inv cfg s)
    (hstage : (s.requests r).stage = .reserved) :
    Inv cfg (s.submitEnqueue r) := by
  have hacc := h.accounting
  have hplace := h.placement
  have hq := (hacc.ok r).reserved hstage
  have hheld : (s.requests r).held = 1 := by
    rw [hq]
    rfl
  have hpos := hacc.held_le (r := r) (by simp [hstage])
  have hfits := cfg.max_outstanding_fits
  have hle := hacc.outstanding_le
  have hnot : r ∉ s.places := hplace.not_mem (by simp [hstage])
  unfold submitEnqueue
  simp only
  split
  · have hsub : sizeSub s.outstanding 1 = s.outstanding - 1 :=
      sizeSub_eq (by omega) (by omega)
    constructor
    · refine hacc.replace rfl rfl (by simp [hstage]) ?_ ?_ ?_
      · rw [hq]
        constructor <;> simp [absent]
      · simp only
        rw [hsub, hheld]
        simp only [held]
        rw [if_neg (by simp)]
        omega
      · simp [held]
    · exact hplace.replace_flags rfl rfl rfl rfl rfl rfl
        (by simp [hstage]) rfl rfl
  · next hopen =>
    constructor
    · refine hacc.replace_flags rfl rfl rfl (by simp [hstage]) (by simp) rfl ?_
      rw [hq]
      constructor <;> simp [absent]
    · have hperm : (s.pending ++ [r] ++ (s.slots.map snd ++ s.todo)).Perm
          (r :: s.places) := by
        rw [append_assoc]
        exact perm_middle
      have hmem : ∀ j, j ∈ s.pending ++ [r]
          ++ (s.slots.map snd ++ s.todo) ↔ j = r ∨ j ∈ s.places :=
        fun j => hperm.mem_iff.trans mem_cons
      refine hplace.replace rfl ?_ ?_ ?_ ?_ ?_ (fun j _ => hplace.head j)
        ?_ hplace.exited
      · exact hperm.nodup_iff.mpr (nodup_cons.mpr ⟨hnot, hplace.nodup⟩)
      · intro j hj
        exact (hmem j).trans (by simp [hj])
      · intro _
        rw [hq]
        simp [absent]
      · intro _ _
        exact (hmem r).mpr (.inl rfl)
      · rw [hq]
        simp [absent]
      · -- the queue is still open, so `fail_all` has not run
        intro hworker
        have hfailed := (hplace.closed hworker).1
        simp [hfailed] at hopen

/-- The cancellation flags decide nothing about completion. -/
theorem cancelled_ok {q : RequestState} (h : q.Ok)
    (hstage : q.stage = .accepted) (c b : Bool) :
    Ok { q with cancelled := c, abandoned := b } := by
  constructor
  case absent => intro hs; rw [hstage] at hs; cases hs
  case reserved => intro hs; rw [hstage] at hs; cases hs
  case refused => intro hs; rw [hstage] at hs; cases hs
  case released => exact h.released
  case completed => exact h.completed
  case released_done => exact h.released_done
  case marking_done => exact h.marking_done
  case settled => exact h.settled

theorem cancelled_inv (h : Inv cfg s)
    (hstage : (s.requests r).stage = .accepted) (c b : Bool) :
    Inv cfg (s.setRequest r { s.requests r with
      cancelled := c, abandoned := b }) := by
  constructor
  · exact h.accounting.replace_flags rfl rfl rfl (by simp [hstage])
      (by simp [hstage]) rfl (cancelled_ok (h.accounting.ok r) hstage c b)
  · exact h.placement.replace_flags rfl rfl rfl rfl rfl rfl Iff.rfl rfl rfl

/-- The consumer's section: whoever comes second takes the release. -/
theorem releaseConsumer_ok {q : RequestState} (h : q.Ok)
    (hstage : q.stage = .accepted) (hheld : q.consumerReleased = false) :
    (releaseConsumer q).Ok := by
  have hfree : q.capacityReleased = false := by
    by_contra hcap
    have hcons := (h.released_done (by simpa using hcap)).2
    rw [hheld] at hcons
    cases hcons
  have hrel := h.released hstage
  rw [hfree] at hrel
  have hcomp := h.completed hstage
  unfold releaseConsumer
  split
  · next hdone =>
    have hdone' : q.done = true := by
      simp only [Bool.and_eq_true] at hdone
      exact hdone.1
    constructor <;> simp_all
  · next hdone =>
    have hdone' : q.done = false := by
      simpa [hfree] using hdone
    have hmark : q.marking = false := by
      by_contra hm
      have hd := h.marking_done (by simpa using hm)
      rw [hdone'] at hd
      cases hd
    constructor <;> simp_all

/-- The worker's second section: likewise. -/
theorem markCompleted_ok {q : RequestState} (h : q.Ok)
    (hstage : q.stage = .accepted) (hmark : q.marking = true) :
    (markCompleted q).Ok := by
  have hdone := h.marking_done hmark
  have hrel := h.released hstage
  have hcomp := h.completed hstage
  unfold markCompleted
  split
  · next hcons =>
    simp only [Bool.and_eq_true, Bool.not_eq_true'] at hcons
    constructor <;> simp_all
  · next hcons =>
    have hboth := h.released_done
    constructor <;> simp_all

theorem releaseConsumer_inv (h : Inv cfg s)
    (hstage : (s.requests r).stage = .accepted)
    (hheld : (s.requests r).consumerReleased = false) :
    Inv cfg (s.setRequest r (releaseConsumer (s.requests r))) := by
  have hfields : (releaseConsumer (s.requests r)).stage = .accepted
      ∧ (releaseConsumer (s.requests r)).done = (s.requests r).done
      ∧ (releaseConsumer (s.requests r)).marking = (s.requests r).marking
      ∧ (releaseConsumer (s.requests r)).decrements
          = (s.requests r).decrements := by
    unfold releaseConsumer
    split
    · exact ⟨hstage, rfl, rfl, rfl⟩
    · exact ⟨hstage, rfl, rfl, rfl⟩
  obtain ⟨hs, hd, hm, hdec⟩ := hfields
  constructor
  · exact h.accounting.replace_flags rfl rfl rfl (by simp [hstage])
      (by simp [hs]) hdec
      (releaseConsumer_ok (h.accounting.ok r) hstage hheld)
  · exact h.placement.replace_flags rfl rfl rfl rfl rfl rfl
      (by simp [hstage, hs]) hd hm

/-- `release_reserved_capacity`: a release in flight is a place still
counted, so the counter is not zero and does not wrap. -/
theorem releaseReservedCapacity_inv (h : Inv cfg s)
    (hrel : 0 < (s.requests r).releasing) :
    Inv cfg (s.releaseReservedCapacity r) := by
  have hacc := h.accounting
  have hok := hacc.ok r
  have hstage : (s.requests r).stage = .refused
      ∨ (s.requests r).stage = .accepted := by
    cases hst : (s.requests r).stage with
    | absent =>
      rw [hok.absent hst] at hrel
      exact absurd hrel (by decide)
    | reserved =>
      rw [hok.reserved hst] at hrel
      exact absurd hrel (by decide)
    | refused => exact .inl rfl
    | accepted => exact .inr rfl
  have hne : (s.requests r).stage ≠ .absent := by
    rcases hstage with hst | hst <;> simp [hst]
  have honce : (s.requests r).releasing = 1
      ∧ (s.requests r).decrements = 0 := by
    rcases hstage with hst | hst
    · have hsum := (hok.refused hst).2.2
      omega
    · have hsum := hok.released hst
      have hcap : (s.requests r).capacityReleased.toNat ≤ 1 :=
        Bool.toNat_le _
      omega
  have hheld : (s.requests r).held = 1 := by
    unfold held
    rw [if_pos ⟨hne, honce.2⟩]
  have hpos := hacc.held_le hne
  have hfits := cfg.max_outstanding_fits
  have hle := hacc.outstanding_le
  have hsub : sizeSub s.outstanding 1 = s.outstanding - 1 :=
    sizeSub_eq (by omega) (by omega)
  unfold releaseReservedCapacity
  simp only
  rw [if_pos (by omega), hsub]
  constructor
  · refine hacc.replace rfl rfl hne ?_ ?_ ?_
    · constructor
      case absent => intro hst; exact absurd hst hne
      case reserved =>
        intro hst
        rcases hstage with h' | h' <;> simp [h'] at hst
      case refused =>
        intro hst
        obtain ⟨hd, hc, hsum⟩ := hok.refused hst
        exact ⟨hd, hc, by simp only; omega⟩
      case released =>
        intro hst
        have hsum := hok.released hst
        simp only
        omega
      case completed => exact hok.completed
      case released_done => exact hok.released_done
      case marking_done => exact hok.marking_done
      case settled => exact hok.settled
    · have hzero : held { s.requests r with
          releasing := (s.requests r).releasing - 1
          decrements := (s.requests r).decrements + 1 } = 0 := by
        simp [held]
      simp only
      rw [hheld, hzero]
      omega
    · simp [held]
  · exact h.placement.replace_flags rfl rfl rfl rfl rfl rfl Iff.rfl rfl rfl

/-- First section of a completion. -/
theorem complete_inv (h : Inv cfg s) {rest : List Nat}
    (htodo : s.todo = r :: rest) (hdone : (s.requests r).done = false) :
    Inv cfg (s.setRequest r { s.requests r with
      done := true
      marking := true
      completions := (s.requests r).completions + 1 }) := by
  have hmem : r ∈ s.places :=
    (places_cons htodo).mem_iff.mpr (.head _)
  have hstage := h.placement.accepted r hmem
  have hok := h.accounting.ok r
  have hfree : (s.requests r).capacityReleased = false := by
    by_contra hcap
    have hd := (hok.released_done (by simpa using hcap)).1
    rw [hdone] at hd
    cases hd
  have hrel := hok.released hstage
  have hcomp := hok.completed hstage
  rw [hdone] at hcomp
  rw [hfree] at hrel
  constructor
  · refine h.accounting.replace_flags rfl rfl rfl (by simp [hstage])
      (by simp [hstage]) rfl ?_
    constructor <;> simp_all
  · refine h.placement.replace rfl h.placement.nodup
      (fun _ _ => Iff.rfl) (fun _ => ⟨hstage, fun _ => rfl⟩)
      (fun _ hd => absurd hd (by simp)) (fun _ => ⟨rest, htodo⟩) ?_
      h.placement.closed h.placement.exited
    exact fun j _ => h.placement.head j

/-- Second section of a completion: the request leaves the worker's
hands. -/
theorem markCompleted_inv (h : Inv cfg s) {rest : List Nat}
    (htodo : s.todo = r :: rest) (hmark : (s.requests r).marking = true) :
    Inv cfg { (s.setRequest r (markCompleted (s.requests r))) with
      todo := rest } := by
  have hperm := places_cons htodo
  have hmem : r ∈ s.places := hperm.mem_iff.mpr (.head _)
  have hstage := h.placement.accepted r hmem
  have hdone := (h.accounting.ok r).marking_done hmark
  have hfields : (markCompleted (s.requests r)).stage = .accepted
      ∧ (markCompleted (s.requests r)).done = true
      ∧ (markCompleted (s.requests r)).marking = false
      ∧ (markCompleted (s.requests r)).decrements
          = (s.requests r).decrements := by
    unfold markCompleted
    split
    · exact ⟨hstage, hdone, rfl, rfl⟩
    · exact ⟨hstage, hdone, rfl, rfl⟩
  obtain ⟨hs, hd, hm, hdec⟩ := hfields
  have hnodup := nodup_cons.mp (hperm.nodup_iff.mp h.placement.nodup)
  constructor
  · exact h.accounting.replace_flags rfl rfl rfl (by simp [hstage])
      (by simp [hs]) hdec
      (markCompleted_ok (h.accounting.ok r) hstage hmark)
  · refine h.placement.replace rfl hnodup.2 ?_ ?_ ?_ ?_ ?_ ?_ ?_
    · intro j hj
      rw [hperm.mem_iff, mem_cons]
      exact (or_iff_right hj).symm
    · intro hr
      exact absurd hr hnodup.1
    · intro _ hd'
      rw [hd] at hd'
      cases hd'
    · intro hm'
      rw [hm] at hm'
      cases hm'
    · intro j hj hjm
      obtain ⟨rest', hrest'⟩ := h.placement.head j hjm
      rw [htodo] at hrest'
      injection hrest' with hjr
      exact absurd hjr.symm hj
    · exact h.placement.closed
    · intro hexit
      have hnil := h.placement.exited hexit
      rw [htodo] at hnil
      cases hnil

/-- Splitting a list without repetitions by membership. -/
theorem perm_filter_split (xs ys : List Nat) (hys : ys.Nodup)
    (hsub : ∀ y ∈ ys, y ∈ xs) (hxs : xs.Nodup) :
    (xs.filter (· ∉ ys) ++ ys).Perm xs := by
  refine (perm_ext_iff_of_nodup ?_ hxs).mpr ?_
  · refine nodup_append.mpr ⟨hxs.filter _, hys, ?_⟩
    intro a ha b hb hab
    subst hab
    simp only [mem_filter, decide_eq_true_eq] at ha
    exact ha.2 hb
  · intro a
    simp only [mem_append, mem_filter, decide_eq_true_eq]
    constructor
    · rintro (⟨ha, -⟩ | ha)
      · exact ha
      · exact hsub a ha
    · intro ha
      by_cases hay : a ∈ ys
      · exact .inr hay
      · exact .inl ⟨ha, hay⟩

/-- Taking requests out of `pending_` into the worker's hands. -/
theorem Placement.places_take (h : Placement s) (hempty : s.todo = [])
    (rs : List Nat) (hrs : rs.Nodup) (hsub : ∀ r ∈ rs, r ∈ s.pending) :
    (s.pending.filter (· ∉ rs) ++ (s.slots.map snd ++ rs)).Perm
      s.places := by
  have hpending : s.pending.Nodup :=
    h.nodup.sublist (sublist_append_left ..)
  have hsplit := perm_filter_split s.pending rs hrs hsub hpending
  unfold places
  rw [hempty, append_nil]
  refine (List.Perm.append_left _ perm_append_comm).trans ?_
  rw [← append_assoc]
  exact hsplit.append_right _

theorem Placement.places_take_one (h : Placement s) (hempty : s.todo = [])
    (hr : r ∈ s.pending) :
    (s.pending.filter (· ≠ r) ++ (s.slots.map snd ++ [r])).Perm
      s.places := by
  have htake := h.places_take hempty [r] (nodup_singleton r) (by simpa using hr)
  have hfilter : (s.pending.filter (· ∉ [r])) = s.pending.filter (· ≠ r) := by
    refine filter_congr ?_
    intro x _
    simp
  rw [hfilter] at htake
  exact htake

/-- An idle worker is in its loop with empty hands. -/
theorem idle_iff : s.idle = true ↔ s.worker = .running ∧ s.todo = [] := by
  simp [idle]

/-- The worker's moves of custody between units of work. -/
theorem Inv.move (h : Inv cfg s) (hempty : s.todo = [])
    (hrequests : s'.requests = s.requests)
    (hnext : s'.nextRequestId = s.nextRequestId)
    (hcount : s'.outstanding = s.outstanding)
    (hplaces : s'.places.Perm s.places)
    (hclosed : s'.worker = .failing ∨ s'.worker = .exited →
      s'.failed = true ∧ s'.pending = [] ∧ s'.slots = [])
    (hexited : s'.worker = .exited → s'.todo = []) : Inv cfg s' :=
  ⟨h.accounting.keep hrequests hnext hcount,
    h.placement.move hempty hrequests hplaces hclosed hexited⟩

/-- Every step keeps the invariant. -/
theorem step_inv {a : Action} (hstep : s.step cfg a = some s')
    (h : Inv cfg s) : Inv cfg s' := by
  have hacc := h.accounting
  have hplace := h.placement
  cases a with
  | submitReserve =>
    simp only [step, Option.some.injEq] at hstep
    subst hstep
    exact submitReserve_inv h
  | submitFails r =>
    simp only [step] at hstep
    split at hstep
    · next hstage =>
      cases hstep
      exact submitFails_inv h hstage
    · cases hstep
  | submitEnqueue r =>
    simp only [step] at hstep
    split at hstep
    · next hstage =>
      cases hstep
      exact submitEnqueue_inv h hstage
    · cases hstep
  | cancel r =>
    simp only [step] at hstep
    split at hstep
    · next hguard =>
      cases hstep
      exact cancelled_inv h hguard.1 true (s.requests r).abandoned
    · cases hstep
  | abandon r =>
    simp only [step] at hstep
    split at hstep
    · next hguard =>
      cases hstep
      exact cancelled_inv h hguard.1 true true
    · cases hstep
  | releaseConsumer r =>
    simp only [step] at hstep
    split at hstep
    · next hguard =>
      cases hstep
      exact releaseConsumer_inv h hguard.1 hguard.2.1
    · cases hstep
  | releaseReservedCapacity r =>
    simp only [step] at hstep
    split at hstep
    · next hrel =>
      cases hstep
      exact releaseReservedCapacity_inv h hrel
    · cases hstep
  | shutdown =>
    simp only [step, Option.some.injEq] at hstep
    subst hstep
    exact ⟨hacc.keep rfl rfl rfl, hplace.nodup, hplace.accepted,
      hplace.placed, hplace.marking, hplace.head, hplace.closed,
      hplace.exited⟩
  | takePending rs =>
    simp only [step] at hstep
    split at hstep
    · next hguard =>
      cases hstep
      obtain ⟨hidle, hnodup, hsub⟩ := hguard
      obtain ⟨hrun, hempty⟩ := idle_iff.mp hidle
      refine h.move hempty rfl rfl rfl ?_ (by simp [hrun]) (by simp [hrun])
      exact hplace.places_take hempty rs hnodup hsub
    · cases hstep
  | admitTo r lane =>
    simp only [step] at hstep
    split at hstep
    · next hguard =>
      cases hstep
      obtain ⟨hidle, hr, -, -⟩ := hguard
      obtain ⟨hrun, hempty⟩ := idle_iff.mp hidle
      refine h.move hempty rfl rfl rfl ?_ (by simp [hrun]) (by simp [hrun])
      refine List.Perm.trans ?_ (hplace.places_take_one hempty hr)
      simp only [places, map_cons, hempty, append_nil]
      exact List.Perm.append_left _ (perm_append_singleton _ _).symm
    · cases hstep
  | admitFails r =>
    simp only [step] at hstep
    split at hstep
    · next hguard =>
      cases hstep
      obtain ⟨hidle, hr⟩ := hguard
      obtain ⟨-, hempty⟩ := idle_iff.mp hidle
      exact h.move hempty rfl rfl rfl (hplace.places_take_one hempty hr)
        (by simp) (by simp)
    · cases hstep
  | finishLane lane =>
    simp only [step] at hstep
    split at hstep
    · next hguard =>
      cases hstep
      obtain ⟨hrun, hempty⟩ := idle_iff.mp hguard.1
      refine h.move hempty rfl rfl rfl ?_ (by simp [hrun]) (by simp [hrun])
      simp only [places, hempty, append_nil]
      refine List.Perm.append_left _ ?_
      rw [← map_append]
      refine List.Perm.map _ ?_
      refine perm_append_comm.trans ?_
      have hsplit := filter_append_perm
        (fun x : Nat × Nat => decide (x.1 = lane)) s.slots
      simpa [decide_not] using hsplit
    · cases hstep
  | unwind =>
    simp only [step] at hstep
    split at hstep
    · next hidle =>
      cases hstep
      obtain ⟨-, hempty⟩ := idle_iff.mp hidle
      exact h.move hempty rfl rfl rfl (List.Perm.refl _) (by simp) (by simp)
    · cases hstep
  | failAll =>
    simp only [step] at hstep
    split at hstep
    · next hguard =>
      cases hstep
      refine h.move hguard.2 rfl rfl rfl ?_ (by simp) (by simp)
      simp only [places, hguard.2, map_nil, nil_append, append_nil]
      exact perm_append_comm
    · cases hstep
  | complete =>
    simp only [step] at hstep
    split at hstep
    · cases hstep
    next r rest htodo =>
    split at hstep
    · cases hstep
    next hmark =>
    split at hstep
    · next hdone =>
      -- a request in the worker's hands that is done is being marked
      have hmem := (places_cons htodo).mem_iff.mpr (.head _)
      exact absurd (hplace.marking r hmem hdone) hmark
    · next hdone =>
      cases hstep
      exact complete_inv h htodo (by simpa using hdone)
  | markCompleted =>
    simp only [step] at hstep
    split at hstep
    · cases hstep
    next r rest htodo =>
    split at hstep
    · next hmark =>
      cases hstep
      exact markCompleted_inv h htodo hmark
    · cases hstep
  | exit =>
    simp only [step] at hstep
    split at hstep
    · next hguard =>
      cases hstep
      exact h.move hguard.2 rfl rfl rfl (List.Perm.refl _)
        (fun _ => hplace.closed (.inl hguard.1)) (fun _ => hguard.2)
    · cases hstep

/-- The executor starts with nothing counted and nothing placed. -/
theorem init_inv : Inv cfg .init := by
  constructor
  · constructor
    case fresh => intro r _; rfl
    case ok =>
      intro r
      constructor <;> simp [init, absent]
    case outstanding_eq => rfl
    case outstanding_le => exact Nat.zero_le _
  · constructor
    case nodup => exact nodup_nil
    case accepted => intro r hr; cases hr
    case placed => intro r hacc; cases hacc
    case marking => intro r hr; cases hr
    case head => intro r hm; cases hm
    case closed => intro hw; rcases hw with hw | hw <;> cases hw
    case exited => intro hw; cases hw

end

end State

-- ============ the result

open State in
/-- What holds of every reachable state: a request becomes done at most
once and is never lost, its place is given back at most once and never
early, and the counter is the number of places held. -/
structure ExactlyOnce (cfg : Config) (s : State) : Prop where
  done_once : ∀ r, (s.requests r).completions ≤ 1
    ∧ ((s.requests r).done = true ↔ (s.requests r).completions = 1)
  decremented_once : ∀ r, (s.requests r).decrements ≤ 1
  decremented_late : ∀ r, (s.requests r).stage = .accepted →
    (s.requests r).decrements = 1 →
      (s.requests r).done = true ∧ (s.requests r).consumerReleased = true
  decremented : ∀ r, (s.requests r).stage = .accepted →
    (s.requests r).done = true → (s.requests r).consumerReleased = true →
      (s.requests r).marking = false → (s.requests r).releasing = 0 →
        (s.requests r).decrements = 1
  refused_decremented : ∀ r, (s.requests r).stage = .refused →
    (s.requests r).releasing = 0 → (s.requests r).decrements = 1
  not_lost : ∀ r, (s.requests r).stage = .accepted →
    (s.requests r).done = false →
      r ∈ s.pending ∨ r ∈ s.slots.map snd ∨ r ∈ s.todo
  done_at_exit : s.worker = .exited →
    ∀ r, (s.requests r).stage = .accepted → (s.requests r).done = true
  outstanding_eq : s.outstanding
    = ((Finset.range s.nextRequestId).filter fun r =>
        (s.requests r).stage ≠ .absent ∧ (s.requests r).decrements = 0).card
  outstanding_le : s.outstanding ≤ cfg.maxOutstanding

/-- The invariant gives it. -/
theorem State.Inv.exactlyOnce {cfg : Config} {s : State}
    (h : State.Inv cfg s) : ExactlyOnce cfg s := by
  have hok := h.accounting.ok
  have hlost : ∀ r, (s.requests r).stage = .accepted →
      (s.requests r).done = false →
        r ∈ s.pending ∨ r ∈ s.slots.map snd ∨ r ∈ s.todo := by
    intro r hacc hdone
    have hmem := h.placement.placed r hacc hdone
    unfold State.places at hmem
    simpa [mem_append] using hmem
  constructor
  case done_once =>
    intro r
    cases hstage : (s.requests r).stage with
    | absent =>
      rw [(hok r).absent hstage]
      exact ⟨Nat.zero_le _, by decide⟩
    | reserved =>
      rw [(hok r).reserved hstage]
      exact ⟨Nat.zero_le _, by decide⟩
    | refused =>
      obtain ⟨hdone, hzero, -⟩ := (hok r).refused hstage
      rw [hdone, hzero]
      exact ⟨Nat.zero_le _, by decide⟩
    | accepted =>
      rw [(hok r).completed hstage]
      cases (s.requests r).done with
      | false => exact ⟨by decide, by decide⟩
      | true => exact ⟨by decide, by decide⟩
  case decremented_once =>
    intro r
    cases hstage : (s.requests r).stage with
    | absent => rw [(hok r).absent hstage]; exact Nat.zero_le _
    | reserved => rw [(hok r).reserved hstage]; exact Nat.zero_le _
    | refused =>
      have hsum := ((hok r).refused hstage).2.2
      omega
    | accepted =>
      have hsum := (hok r).released hstage
      have hcap := Bool.toNat_le (s.requests r).capacityReleased
      omega
  case decremented_late =>
    intro r hstage hdec
    have hsum := (hok r).released hstage
    refine (hok r).released_done ?_
    by_contra hcap
    have hfalse : (s.requests r).capacityReleased = false := by
      simpa using hcap
    rw [hfalse] at hsum
    simp only [Bool.toNat_false] at hsum
    omega
  case decremented =>
    intro r hstage hdone hcons hmark hrel
    have hcap := (hok r).settled hstage hdone hcons hmark
    have hsum := (hok r).released hstage
    rw [hcap, hrel] at hsum
    simpa using hsum
  case refused_decremented =>
    intro r hstage hrel
    have hsum := ((hok r).refused hstage).2.2
    omega
  case not_lost => exact hlost
  case done_at_exit =>
    intro hexit r hacc
    by_contra hdone
    obtain ⟨-, hpending, hslots⟩ := h.placement.closed (.inr hexit)
    have htodo := h.placement.exited hexit
    have hmem := hlost r hacc (by simpa using hdone)
    rw [hpending, hslots, htodo] at hmem
    simp at hmem
  case outstanding_eq =>
    rw [h.accounting.outstanding_eq, Finset.card_filter]
    rfl
  case outstanding_le => exact h.accounting.outstanding_le

/-- Exactly-once completion and release, over every interleaving. -/
theorem exactly_once (cfg : Config) (acts : List Action) (s : State)
    (hrun : run (State.step cfg) .init acts = some s) :
    ExactlyOnce cfg s :=
  State.Inv.exactlyOnce (run_inv (P := State.Inv cfg)
    (fun _ _ _ hstep h => State.step_inv hstep h) hrun State.init_inv)

/-- Two requests, one place too few for a third: one is abandoned while
the worker is between its two sections, the other fails with the
engine. -/
def sampleActions : List Action :=
  [ .submitReserve, .submitReserve, .submitReserve,
    .submitEnqueue 1, .submitEnqueue 2,
    .admitTo 1 0, .finishLane 0, .complete, .abandon 1,
    .releaseConsumer 1, .markCompleted, .releaseReservedCapacity 1,
    .shutdown, .unwind, .failAll, .complete, .markCompleted, .exit ]

theorem exactly_once_sample :
    ∃ s, run (State.step ⟨2, 1, by decide⟩) .init sampleActions = some s
      ∧ s.worker = .exited ∧ s.outstanding = 1
      ∧ (s.requests 2).done = true ∧ ExactlyOnce ⟨2, 1, by decide⟩ s := by
  have hrun : (run (State.step ⟨2, 1, by decide⟩) .init sampleActions).map
      (fun s => (s.worker, s.outstanding, (s.requests 2).done))
        = some (.exited, 1, true) := by
    decide +kernel
  obtain ⟨s, hs, hvalues⟩ := Option.map_eq_some_iff.mp hrun
  simp only [Prod.mk.injEq] at hvalues
  obtain ⟨hworker, hcount, hdone⟩ := hvalues
  exact ⟨s, hs, hworker, hcount, hdone, exactly_once _ sampleActions s hs⟩

end Ginfer.Executor
