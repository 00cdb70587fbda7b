/-
The protected head, over every run of the executor.

# The epoch's invariant

While a protection `p` stands, five things hold at every unit boundary
(`Epoch`): it was made by the policy for a set of incumbents whose ids
are all older than any id still to be given out; no pending request is
one of them; every active request is an incumbent or was backfilled in
this epoch; the head, the surviving incumbents that are no donors and the
persistent backfills fit; and what the temporal backfills were charged,
with the credit that is left, is the credit the protection was made with.

# Steps

All units but an admission only SHRINK what the invariant counts: they
take requests out of the queue or out of the slots, consume work, or end
the protection (`Shrinks`, kept by `Inv.shrinks`). An admission puts one
pending request into one free slot (`Inv.place`), and only there the
admission rules are needed: a persistent backfill was checked against the
frontier, a temporal one paid out of the credit, and the head itself ends
its protection.

The argument never looks inside the Program: it holds for any target.
-/
import Ginfer.Lib.Owners
import Ginfer.Lib.Runs
import Ginfer.Executor.Proofs.AdmissionPolicy
import Ginfer.Executor.Proofs.Selection

namespace Ginfer.Admission

open Ginfer.Lib List Function State
open Option hiding map_map filter_map

variable {π Prompt Base Plan Dev : Type}
  {api : ProgramApi π Prompt Base Plan Dev} {c : Config}

-- ============ totals over lanes

/-- What the request in a slot weighs in component `k`, when `counts`
counts it. -/
def slotUse (counts : ActiveAdmissionSnapshot → Bool) (k : ResourceKind) :
    Option (Request Prompt Base Plan) → Nat
  | none => 0
  | some r =>
    if counts (snapshot r) then r.admissionResources.get k else 0

theorem lanes_nodup : c.lanes.Nodup :=
  (nodup_finRange _).filter _

/-- The use of the active set is a total over the lanes. -/
theorem used_active (counts : ActiveAdmissionSnapshot → Bool)
    (k : ResourceKind) (s : State π Prompt Base Plan) :
    used k (((s.active c).map snapshot).filter counts)
      = ∑ lane ∈ c.lanes.toFinset, slotUse counts k (s.slots lane) := by
  rw [sum_toFinset _ lanes_nodup]
  unfold active
  induction c.lanes with
  | nil => rfl
  | cons lane rest ih =>
    rw [map_cons, sum_cons, ← ih]
    cases hslot : s.slots lane with
    | none => rw [filterMap_cons_none hslot]; simp [slotUse]
    | some r =>
      rw [filterMap_cons_some hslot, map_cons]
      by_cases hr : counts (snapshot r) = true
      · rw [filter_cons_of_pos hr]
        simp only [used, map_cons, sum_cons, slotUse, hr, if_true]
        rfl
      · rw [filter_cons_of_neg hr]
        simp [slotUse, hr]

-- ============ the invariant

/-- The head, the surviving incumbents that are no donors and the
persistent backfills of the epoch fit the capacity. -/
def FrontierFits (c : Config) (s : State π Prompt Base Plan)
    (p : AdmissionProtection) : Prop :=
  ∀ k, p.headResources.get k
      + used k (((s.active c).map snapshot).filter (countsAtFrontier p))
    ≤ c.capacity.get k

/-- What holds while protection `p` stands. -/
structure Epoch (c : Config) (s : State π Prompt Base Plan)
    (p : AdmissionProtection) : Prop where
  made : ∃ active frozen,
    makeAdmissionProtection p.epochId p.headRequestId p.headResources active
        c.capacity = .ok frozen
      ∧ p.incumbentIds = frozen.incumbentIds
      ∧ p.donorIds = frozen.donorIds
      ∧ s.frozenCredit = frozen.temporalCredit
  incumbents_lt : ∀ id ∈ p.incumbentIds, id < s.nextRequestId
  fresh : ∀ r ∈ s.pending, r.id ∉ p.incumbentIds
  members : ∀ lane r, s.slots lane = some r → r.id ∈ p.incumbentIds
    ∨ (r.backfillEpoch = p.epochId
      ∧ (r.backfillClass = .persistent ∨ r.backfillClass = .temporal))
  fits : FrontierFits c s p
  paid : s.temporalWork + p.temporalCredit = s.frozenCredit

/-- Request ids name one request each, and the epoch's invariant. -/
structure Inv (c : Config) (s : State π Prompt Base Plan) : Prop where
  pending_nodup : (s.pending.map (·.id)).Nodup
  pending_lt : ∀ r ∈ s.pending, r.id < s.nextRequestId
  slots_lanes : ∀ lane r, s.slots lane = some r → lane ∈ c.lanes
  slots_lt : ∀ lane r, s.slots lane = some r → r.id < s.nextRequestId
  slots_distinct : ∀ lane lane' r r', s.slots lane = some r →
    s.slots lane' = some r' → r.id = r'.id → lane = lane'
  apart : ∀ q ∈ s.pending, ∀ lane r, s.slots lane = some r → q.id ≠ r.id
  epoch : ∀ p, s.protection = some p → Epoch c s p

-- ============ shrinking

/-- The fields of a request the accounting reads. -/
def SameRequest (r r' : Request Prompt Base Plan) : Prop :=
  r'.id = r.id ∧ r'.admissionResources = r.admissionResources
    ∧ r'.backfillEpoch = r.backfillEpoch
    ∧ r'.backfillClass = r.backfillClass

/-- `s'` is `s` less some requests, with the protection of `s` or none. -/
structure Shrinks (s s' : State π Prompt Base Plan) : Prop where
  pending : (s'.pending.map (·.id)).Sublist (s.pending.map (·.id))
  slots : ∀ lane r', s'.slots lane = some r' →
    ∃ r, s.slots lane = some r ∧ SameRequest r r'
  protection : ∀ p', s'.protection = some p' →
    ∃ p, s.protection = some p ∧ p' = { p with phase := p'.phase }
  next : s.nextRequestId ≤ s'.nextRequestId
  frozen : s'.frozenCredit = s.frozenCredit
  work : s'.temporalWork = s.temporalWork

theorem SameRequest.refl (r : Request Prompt Base Plan) :
    SameRequest r r := ⟨rfl, rfl, rfl, rfl⟩

theorem Shrinks.refl (s : State π Prompt Base Plan) : Shrinks s s where
  pending := List.Sublist.refl _
  slots := fun _ r h => ⟨r, h, .refl r⟩
  protection := fun p h => ⟨p, h, rfl⟩
  next := le_refl _
  frozen := rfl
  work := rfl

variable {t : State π Prompt Base Plan}

theorem Shrinks.trans {s u : State π Prompt Base Plan}
    (h : Shrinks s t) (h' : Shrinks t u) : Shrinks s u where
  pending := h'.pending.trans h.pending
  slots := by
    intro lane r'' hslot
    obtain ⟨r', hslot', hid', hres', hepoch', hclass'⟩ := h'.slots lane r'' hslot
    obtain ⟨r, hslot'', hid, hres, hepoch, hclass⟩ := h.slots lane r' hslot'
    exact ⟨r, hslot'', hid'.trans hid, hres'.trans hres,
      hepoch'.trans hepoch, hclass'.trans hclass⟩
  protection := by
    intro p'' hp''
    obtain ⟨p', hp', heq'⟩ := h'.protection p'' hp''
    obtain ⟨p, hp, heq⟩ := h.protection p' hp'
    refine ⟨p, hp, ?_⟩
    rw [heq'] at *
    rw [heq]
  next := h.next.trans h'.next
  frozen := h'.frozen.trans h.frozen
  work := h'.work.trans h.work

/-- A request that the accounting cannot tell apart weighs the same. -/
theorem SameRequest.slotUse_eq {r r' : Request Prompt Base Plan}
    (h : SameRequest r r') (p : AdmissionProtection) (k : ResourceKind) :
    slotUse (countsAtFrontier p) k (some r')
      = slotUse (countsAtFrontier p) k (some r) := by
  obtain ⟨hid, hres, hepoch, hclass⟩ := h
  have hcounts : countsAtFrontier p (snapshot r')
      = countsAtFrontier p (snapshot r) := by
    unfold countsAtFrontier snapshot
    dsimp only
    rw [hid, hepoch, hclass]
  simp only [slotUse, hcounts, hres]

variable {s' : State π Prompt Base Plan} {s : State π Prompt Base Plan}

/-- What the accounting counts only goes down. -/
theorem Shrinks.frontierFits (h : Shrinks s s') {p : AdmissionProtection}
    (hfits : FrontierFits c s p) : FrontierFits c s' p := by
  intro k
  have hle : ∀ lane ∈ c.lanes.toFinset,
      slotUse (countsAtFrontier p) k (s'.slots lane)
        ≤ slotUse (countsAtFrontier p) k (s.slots lane) := by
    intro lane _
    cases hslot : s'.slots lane with
    | none => exact Nat.zero_le _
    | some r' =>
      obtain ⟨r, hslot', hsame⟩ := h.slots lane r' hslot
      rw [hslot', hsame.slotUse_eq]
  have hk := hfits k
  rw [used_active] at hk ⊢
  have hsum := Finset.sum_le_sum hle
  omega

/-- Shrinking keeps the invariant. -/
theorem Inv.shrinks (hinv : Inv c s)
    (h : Shrinks s s') : Inv c s' where
  pending_nodup := h.pending.nodup hinv.pending_nodup
  pending_lt := by
    intro r' hr'
    have hmem := h.pending.subset (mem_map_of_mem hr')
    obtain ⟨r, hr, hid⟩ := mem_map.mp hmem
    have := hinv.pending_lt r hr
    have := h.next
    omega
  slots_lanes := by
    intro lane r' hslot
    obtain ⟨r, hslot', _⟩ := h.slots lane r' hslot
    exact hinv.slots_lanes lane r hslot'
  slots_lt := by
    intro lane r' hslot
    obtain ⟨r, hslot', hid, _⟩ := h.slots lane r' hslot
    have := hinv.slots_lt lane r hslot'
    have := h.next
    omega
  slots_distinct := by
    intro lane lane' r r' hslot hslot' hid
    obtain ⟨q, hq, hqid, _⟩ := h.slots lane r hslot
    obtain ⟨q', hq', hqid', _⟩ := h.slots lane' r' hslot'
    exact hinv.slots_distinct lane lane' q q' hq hq' (by omega)
  apart := by
    intro q' hq' lane r' hslot
    have hmem := h.pending.subset (mem_map_of_mem hq')
    obtain ⟨q, hq, hqid⟩ := mem_map.mp hmem
    obtain ⟨r, hslot', hid, _⟩ := h.slots lane r' hslot
    have := hinv.apart q hq lane r hslot'
    omega
  epoch := by
    intro p' hp'
    obtain ⟨p, hp, heq⟩ := h.protection p' hp'
    obtain ⟨hmade, hlt, hfresh, hmembers, hfits, hpaid⟩ := hinv.epoch p hp
    rw [heq]
    refine ⟨?_, ?_, ?_, ?_, h.frontierFits hfits, ?_⟩
    · rw [h.frozen]
      exact hmade
    · intro id hid
      have := hlt id hid
      have := h.next
      omega
    · intro r' hr'
      have hmem := h.pending.subset (mem_map_of_mem hr')
      obtain ⟨r, hr, hid⟩ := mem_map.mp hmem
      rw [← hid]
      exact hfresh r hr
    · intro lane r' hslot
      obtain ⟨r, hslot', hid, _, hepoch, hclass⟩ := h.slots lane r' hslot
      rw [hid, hepoch, hclass]
      exact hmembers lane r hslot'
    · rw [h.work, h.frozen]
      exact hpaid

-- ============ the units that only shrink

section

variable (s : State π Prompt Base Plan)

/-- A state that agrees with `s` on what the invariant reads. -/
theorem Shrinks.of_books {s s' : State π Prompt Base Plan}
    (hpending : s'.pending = s.pending) (hslots : s'.slots = s.slots)
    (hprotection : s'.protection = s.protection)
    (hnext : s'.nextRequestId = s.nextRequestId)
    (hfrozen : s'.frozenCredit = s.frozenCredit)
    (hwork : s'.temporalWork = s.temporalWork) : Shrinks s s' where
  pending := by rw [hpending]
  slots := fun lane r h => ⟨r, by rw [← hslots]; exact h, .refl r⟩
  protection := fun p h => ⟨p, by rw [← hprotection]; exact h, rfl⟩
  next := le_of_eq hnext.symm
  frozen := hfrozen
  work := hwork

/-- A slot keeps a request the accounting cannot tell apart, or loses it. -/
theorem Shrinks.of_slot {lane : Lane} {o : Option (Request Prompt Base Plan)}
    (h : ∀ r', o = some r' → ∃ r, s.slots lane = some r ∧ SameRequest r r') :
    Shrinks s (s.setSlot lane o) where
  pending := List.Sublist.refl _
  slots := by
    intro lane' r' hslot
    replace hslot : update s.slots lane o lane' = some r' := hslot
    by_cases heq : lane' = lane
    · subst heq
      rw [update_self] at hslot
      exact h r' hslot
    · rw [update_of_ne heq] at hslot
      exact ⟨r', hslot, .refl r'⟩
  protection := fun p h => ⟨p, h, rfl⟩
  next := le_refl _
  frozen := rfl
  work := rfl

theorem removeCompletedSlot_shrinks (lane : Lane) :
    Shrinks s (s.removeCompletedSlot lane) :=
  (Shrinks.of_slot s (by simp)).trans (Shrinks.of_books rfl rfl rfl rfl rfl rfl)

theorem releasePrefill_shrinks (lane : Lane) :
    Shrinks s (s.releasePrefill lane) := by
  unfold releasePrefill
  split
  · exact .of_books rfl rfl rfl rfl rfl rfl
  · exact .refl s

theorem erasePending_shrinks (id : Nat) : Shrinks s (s.erasePending id) where
  pending := filter_sublist.map _
  slots := fun _ r h => ⟨r, h, .refl r⟩
  protection := fun p h => ⟨p, h, rfl⟩
  next := le_refl _
  frozen := rfl
  work := rfl

/-- Ending the protection. -/
theorem endProtection_shrinks : Shrinks s { s with protection := none } where
  pending := List.Sublist.refl _
  slots := fun _ r h => ⟨r, h, .refl r⟩
  protection := fun _ h => absurd h (by simp)
  next := le_refl _
  frozen := rfl
  work := rfl

theorem clearProtectionIfHead_shrinks (id : Nat) :
    Shrinks s (s.clearProtectionIfHead id) := by
  unfold clearProtectionIfHead
  split
  · exact endProtection_shrinks s
  · exact .refl s

/-- What `clear_protection_if_head` leaves: a protection after it is one of
another head. -/
theorem clearProtectionIfHead_books (id : Nat) :
    (s.clearProtectionIfHead id).slots = s.slots
      ∧ (s.clearProtectionIfHead id).pending = s.pending
      ∧ (s.clearProtectionIfHead id).nextRequestId = s.nextRequestId
      ∧ ∀ p, (s.clearProtectionIfHead id).protection = some p →
        s.protection = some p ∧ p.headRequestId ≠ id := by
  unfold clearProtectionIfHead
  split
  · exact ⟨rfl, rfl, rfl, fun p h => absurd h (by simp)⟩
  · next hother =>
    refine ⟨rfl, rfl, rfl, ?_⟩
    intro p hp
    refine ⟨hp, ?_⟩
    rw [hp] at hother
    simpa using hother

theorem removePending_shrinks (id : Nat) : Shrinks s (s.removePending id) :=
  (erasePending_shrinks s id).trans (clearProtectionIfHead_shrinks _ id)

theorem updatePending_ids (request : Request Prompt Base Plan) :
    (s.updatePending request).pending.map (·.id) = s.pending.map (·.id) := by
  unfold updatePending
  rw [map_map]
  refine map_congr_left ?_
  intro r _
  by_cases h : r.id = request.id
  · simp [h]
  · simp [h]

theorem updatePending_shrinks (request : Request Prompt Base Plan) :
    Shrinks s (s.updatePending request) where
  pending := by rw [updatePending_ids]
  slots := fun _ r h => ⟨r, h, .refl r⟩
  protection := fun p h => ⟨p, h, rfl⟩
  next := le_refl _
  frozen := rfl
  work := rfl

theorem consumeServiceWork_shrinks (lane : Lane) (work : Nat) :
    Shrinks s (consumeServiceWork s lane work).state := by
  unfold consumeServiceWork
  split
  · exact .refl s
  · next r hslot =>
    split
    · exact .refl s
    · refine Shrinks.of_slot s ?_
      intro r' hr'
      simp only [some.injEq] at hr'
      exact ⟨r, hslot, by rw [← hr']; exact ⟨rfl, rfl, rfl, rfl⟩⟩

variable (api)

theorem resolveRound_shrinks (lane : Lane)
    (decision : Nat → Except Exception OutputDecision) :
    Shrinks s (resolveRound api s lane decision).state := by
  unfold resolveRound
  split
  · exact .refl s
  · next r hslot =>
    split
    · exact .refl s
    · split
      · exact .refl s
      · split
        · exact .of_books rfl rfl rfl rfl rfl rfl
        · next d _ p _ =>
          dsimp only
          have hprogram : Shrinks s { s with program := p } :=
            .of_books rfl rfl rfl rfl rfl rfl
          split
          · exact hprogram.trans (removeCompletedSlot_shrinks _ lane)
          · refine hprogram.trans (Shrinks.of_slot _ ?_)
            intro r' hr'
            simp only [some.injEq] at hr'
            exact ⟨r, hslot, by rw [← hr']; exact ⟨rfl, rfl, rfl, rfl⟩⟩

theorem resolvePrefillStep_shrinks (lane : Lane) (unit : PrefillUnit Dev) :
    Shrinks s (resolvePrefillStep api s lane unit).state := by
  unfold resolvePrefillStep
  refine Outcome.andThen_keeps (P := Shrinks s)
    (consumeServiceWork_shrinks s lane 1) ?_
  intro t ht
  split
  · have hprogram : Shrinks (t.releasePrefill lane)
        { t.releasePrefill lane with
          program := api.abortLane t.program lane } :=
      .of_books rfl rfl rfl rfl rfl rfl
    exact ((ht.trans (releasePrefill_shrinks t lane)).trans hprogram).trans
      (removeCompletedSlot_shrinks _ lane)
  · split
    · exact ht
    · exact (ht.trans (releasePrefill_shrinks t lane)).trans
        (resolveRound_shrinks api _ lane unit.decision)

theorem admissionFails_shrinks (lane : Lane) (started : Bool) :
    Shrinks s (admissionFails api s lane started) := by
  unfold admissionFails
  refine ((Shrinks.of_books (s := s) ?_ ?_ ?_ ?_ ?_ ?_).trans
    (releasePrefill_shrinks _ lane)).trans
      (removeCompletedSlot_shrinks _ lane) <;> rfl

/-- Eviction changes the Program and the plan versions only. -/
theorem evictUntilAdmissible_books (choice : Lane) (plan : Plan)
    (lanes : List Lane) : ∀ s : State π Prompt Base Plan,
    (evictUntilAdmissible api choice plan lanes s).slots = s.slots
      ∧ (evictUntilAdmissible api choice plan lanes s).pending = s.pending
      ∧ (evictUntilAdmissible api choice plan lanes s).protection = s.protection
      ∧ (evictUntilAdmissible api choice plan lanes s).nextRequestId
        = s.nextRequestId
      ∧ (evictUntilAdmissible api choice plan lanes s).frozenCredit
        = s.frozenCredit
      ∧ (evictUntilAdmissible api choice plan lanes s).temporalWork
        = s.temporalWork := by
  induction lanes with
  | nil => intro s; exact ⟨rfl, rfl, rfl, rfl, rfl, rfl⟩
  | cons lane rest ih =>
    intro s
    unfold evictUntilAdmissible
    split
    · exact ⟨rfl, rfl, rfl, rfl, rfl, rfl⟩
    · split
      · exact ih _
      · exact ih s

theorem expirePendingRequests_shrinks (gone : Nat → Bool) :
    Shrinks s (expirePendingRequests s gone) where
  pending := filter_sublist.map _
  slots := fun _ r h => ⟨r, h, .refl r⟩
  protection := by
    intro p hp
    unfold expirePendingRequests at hp
    dsimp only at hp
    split at hp
    · exact absurd hp (by simp)
    · exact ⟨p, hp, rfl⟩
  next := le_refl _
  frozen := rfl
  work := rfl

theorem cancelLane_shrinks (cancelled : Lane → Bool) (lane : Lane) :
    Shrinks s (cancelLane api cancelled s lane) := by
  unfold cancelLane
  split
  · refine ((Shrinks.of_books (s := s) ?_ ?_ ?_ ?_ ?_ ?_).trans
      (releasePrefill_shrinks _ lane)).trans
        (removeCompletedSlot_shrinks _ lane) <;> rfl
  · exact .refl s

theorem cancelActiveRequests_shrinks (cancelled : Lane → Bool) :
    Shrinks s (cancelActiveRequests api c s cancelled) := by
  unfold cancelActiveRequests
  induction c.lanes generalizing s with
  | nil => exact .refl s
  | cons lane rest ih =>
    exact (cancelLane_shrinks api s cancelled lane).trans (ih _)

theorem runPrefillStep_shrinks (unit : PrefillUnit Dev) :
    Shrinks s (runPrefillStep api s unit).state := by
  unfold runPrefillStep
  split
  · exact .refl s
  · next lane _ =>
    split
    · exact .refl s
    · split
      · exact .of_books rfl rfl rfl rfl rfl rfl
      · refine (Shrinks.of_books (s := s) ?_ ?_ ?_ ?_ ?_ ?_).trans
          (resolvePrefillStep_shrinks api _ lane unit) <;> rfl

omit api in
theorem commitRow_shrinks (row : RowResolution) :
    Shrinks s (commitRow row s).state := by
  unfold commitRow
  split
  · exact removeCompletedSlot_shrinks s row.lane
  · split
    · exact .refl s
    · next r hslot =>
      refine Outcome.andThen_keeps (P := Shrinks s)
        (Shrinks.trans (Shrinks.of_slot s ?_)
          (consumeServiceWork_shrinks _ _ _)) ?_
      · intro r' hr'
        simp only [some.injEq] at hr'
        exact ⟨r, hslot, by rw [← hr']; exact ⟨rfl, rfl, rfl, rfl⟩⟩
      intro t ht
      split
      · exact ht.trans (removeCompletedSlot_shrinks t row.lane)
      · exact ht

theorem runDecodeRound_shrinks (unit : DecodeUnit Dev) :
    Shrinks s (runDecodeRound api c s unit).state := by
  unfold runDecodeRound
  dsimp only
  split
  · exact .of_books rfl rfl rfl rfl rfl rfl
  · split
    · exact .of_books rfl rfl rfl rfl rfl rfl
    · split
      · exact .of_books rfl rfl rfl rfl rfl rfl
      · next rows _ p _ =>
        exact Outcome.forEach_keeps (P := Shrinks s)
          (fun row _ t ht => ht.trans (commitRow_shrinks t row)) _
          (.of_books rfl rfl rfl rfl rfl rfl)

theorem failAll_shrinks : Shrinks s (failAll api c s) where
  pending := nil_sublist _
  slots := fun _ _ h => absurd h (by simp [failAll])
  protection := fun _ h => absurd h (by simp [failAll])
  next := le_refl _
  frozen := rfl
  work := rfl

end

-- ============ admission

/-- How a request admitted under protection `p` must enter: as a temporal
backfill of the epoch, or as a persistent one that was checked against
the frontier. -/
def EntersUnder (c : Config) (s : State π Prompt Base Plan)
    (p : AdmissionProtection) (epoch : Nat) (cls : BackfillClass)
    (resources : AdmissionResources) : Prop :=
  epoch = p.epochId ∧ (cls = .temporal ∨ (cls = .persistent
    ∧ ∀ k, p.headResources.get k
        + used k (((s.active c).map snapshot).filter
            (countsAtFrontier p)) + resources.get k ≤ c.capacity.get k))

/-- Placing a request adds at most its own weight to the frontier. -/
theorem used_place_le (s : State π Prompt Base Plan) (lane : Lane)
    (r : Request Prompt Base Plan) (hfree : s.slots lane = none)
    (p : AdmissionProtection) (k : ResourceKind) :
    used k ((((s.setSlot lane (some r)).active c).map snapshot).filter
        (countsAtFrontier p))
      ≤ used k (((s.active c).map snapshot).filter
        (countsAtFrontier p)) + slotUse (countsAtFrontier p) k (some r) := by
  rw [used_active, used_active]
  unfold setSlot
  dsimp only
  by_cases hlane : lane ∈ c.lanes.toFinset
  · have htotal := total_update_on c.lanes.toFinset s.slots
      (slotUse (countsAtFrontier p) k) lane hlane (some r)
    rw [hfree] at htotal
    have hzero : slotUse (countsAtFrontier p) k
        (none : Option (Request Prompt Base Plan)) = 0 := rfl
    omega
  · have hsame : ∑ l ∈ c.lanes.toFinset, slotUse (countsAtFrontier p) k
        (update s.slots lane (some r) l)
          = ∑ l ∈ c.lanes.toFinset,
              slotUse (countsAtFrontier p) k (s.slots l) := by
      refine Finset.sum_congr rfl ?_
      intro l hl
      have hne : l ≠ lane := fun h => hlane (h ▸ hl)
      rw [update_of_ne hne]
    omega

/-- One request enters one free slot. -/
theorem Inv.place (hinv : Inv c s)
    {lane : Lane} {r : Request Prompt Base Plan}
    (hlane : lane ∈ c.lanes) (hfree : s.slots lane = none)
    (hlt : r.id < s.nextRequestId) (hpending : ∀ q ∈ s.pending, q.id ≠ r.id)
    (hslots : ∀ l r', s.slots l = some r' → r'.id ≠ r.id)
    (hepoch : ∀ p, s.protection = some p → r.id ∉ p.incumbentIds
      ∧ EntersUnder c s p r.backfillEpoch r.backfillClass r.admissionResources) :
    Inv c (s.setSlot lane (some r)) := by
  -- the occupied slots are the old ones and the new one
  have hcases : ∀ l r', update s.slots lane (some r) l = some r' →
      (l = lane ∧ r' = r) ∨ (l ≠ lane ∧ s.slots l = some r') := by
    intro l r' h
    by_cases hl : l = lane
    · subst hl
      rw [update_self] at h
      exact .inl ⟨rfl, (some.inj h).symm⟩
    · rw [update_of_ne hl] at h
      exact .inr ⟨hl, h⟩
  refine ⟨hinv.pending_nodup, hinv.pending_lt, ?_, ?_, ?_, ?_, ?_⟩
  · intro l r' h
    rcases hcases l r' h with ⟨rfl, _⟩ | ⟨_, hold⟩
    · exact hlane
    · exact hinv.slots_lanes l r' hold
  · intro l r' h
    rcases hcases l r' h with ⟨_, rfl⟩ | ⟨_, hold⟩
    · exact hlt
    · exact hinv.slots_lt l r' hold
  · intro l l' q q' h h' hid
    rcases hcases l q h with ⟨rfl, rfl⟩ | ⟨_, hold⟩
    · rcases hcases l' q' h' with ⟨rfl, _⟩ | ⟨_, hold'⟩
      · rfl
      · exact absurd hid.symm (hslots l' q' hold')
    · rcases hcases l' q' h' with ⟨_, rfl⟩ | ⟨_, hold'⟩
      · exact absurd hid (hslots l q hold)
      · exact hinv.slots_distinct l l' q q' hold hold' hid
  · intro q hq l r' h
    rcases hcases l r' h with ⟨_, rfl⟩ | ⟨_, hold⟩
    · exact hpending q hq
    · exact hinv.apart q hq l r' hold
  · intro p hp
    obtain ⟨hfresh, hepochId, henters⟩ := hepoch p hp
    obtain ⟨hmade, hincumbents, hpfresh, hmembers, hfits, hpaid⟩ :=
      hinv.epoch p hp
    refine ⟨hmade, hincumbents, hpfresh, ?_, ?_, hpaid⟩
    · intro l r' h
      rcases hcases l r' h with ⟨_, rfl⟩ | ⟨_, hold⟩
      · rcases henters with htemporal | ⟨hpersistent, _⟩
        · exact .inr ⟨hepochId, .inr htemporal⟩
        · exact .inr ⟨hepochId, .inl hpersistent⟩
      · exact hmembers l r' hold
    · intro k
      have hle := used_place_le (c := c) s lane r hfree p k
      have hnot : isIncumbent p r.id = false := by
        simpa [isIncumbent] using hfresh
      rcases henters with htemporal | ⟨_, hroom⟩
      · -- a temporal backfill does not count at the frontier
        have hweight : slotUse (countsAtFrontier p) k (some r) = 0 := by
          simp [slotUse, countsAtFrontier, snapshot, hnot, htemporal]
        have hk := hfits k
        omega
      · have hweight : slotUse (countsAtFrontier p) k (some r)
            ≤ r.admissionResources.get k := by
          show (if countsAtFrontier p (snapshot r) = true
            then r.admissionResources.get k else 0) ≤ _
          split
          · exact le_refl _
          · exact Nat.zero_le _
        have hk := hroom k
        omega

/-- Paying a temporal backfill moves credit into the work it paid for. -/
theorem payTemporal_inv (hinv : Inv c s)
    (summary : RequestPlanSummary) (cls : BackfillClass) (epoch : Nat) :
    Inv c (payTemporal s summary cls epoch).state := by
  unfold payTemporal
  split
  · exact hinv
  · split
    · exact hinv
    · next p hp =>
      split
      · exact hinv
      · next hcredit =>
        refine ⟨hinv.pending_nodup, hinv.pending_lt, hinv.slots_lanes,
          hinv.slots_lt, hinv.slots_distinct, hinv.apart, ?_⟩
        intro p' hp'
        replace hp' : some _ = some p' := hp'
        rw [← some.inj hp']
        obtain ⟨hmade, hincumbents, hfresh, hmembers, hfits, hpaid⟩ :=
          hinv.epoch p hp
        refine ⟨hmade, hincumbents, hfresh, hmembers, hfits, ?_⟩
        show s.temporalWork + summary.serviceWorkQuanta
            + (p.temporalCredit - summary.serviceWorkQuanta)
          = s.frozenCredit
        simp only [not_or, not_lt] at hcredit
        have := hcredit.2
        omega

variable {cls : BackfillClass} {epoch : Nat}

/-- `payTemporal` leaves the queue and the slots, and a protection after
it has the frozen fields of the one before. -/
theorem payTemporal_books {summary : RequestPlanSummary}
    (h : payTemporal s summary cls epoch = .ok t) :
    t.pending = s.pending ∧ t.slots = s.slots ∧ t.nextRequestId = s.nextRequestId
      ∧ ∀ p, t.protection = some p → ∃ q, s.protection = some q
        ∧ p = { q with temporalCredit := p.temporalCredit } := by
  unfold payTemporal at h
  split at h
  · simp only [Outcome.ok.injEq] at h
    subst h
    exact ⟨rfl, rfl, rfl, fun p hp => ⟨p, hp, rfl⟩⟩
  · split at h
    · exact absurd h (by simp)
    · next q hq =>
      split at h
      · exact absurd h (by simp)
      · simp only [Outcome.ok.injEq] at h
        subst h
        refine ⟨rfl, rfl, rfl, ?_⟩
        intro p hp
        replace hp : some _ = some p := hp
        rw [← some.inj hp]
        exact ⟨q, hq, rfl⟩

variable (api c)

theorem startTarget_shrinks (s : State π Prompt Base Plan) (prompt : Prompt)
    (lane : Lane) (plan : Plan) (transient : TransientRegion)
    (unit : PrefillUnit Dev) :
    Shrinks s
      (startTarget api s prompt lane plan transient unit).state := by
  unfold startTarget
  have hprogram : ∀ p : π, Shrinks s { s with program := p } :=
    fun p => .of_books rfl rfl rfl rfl rfl rfl
  split
  · exact (hprogram _).trans (admissionFails_shrinks api _ lane true)
  · next p _ =>
    dsimp only
    split
    · exact (hprogram p).trans (admissionFails_shrinks api _ lane true)
    · have hresolve := resolvePrefillStep_shrinks api
        { s with program := p } lane unit
      split
      · next heq =>
        rw [heq] at hresolve
        exact ((hprogram p).trans hresolve).trans
          (admissionFails_shrinks api _ lane true)
      · next heq =>
        rw [heq] at hresolve
        exact (hprogram p).trans hresolve

/-- From its slot on, an admitted request only shrinks the state. -/
theorem startAdmitted_inv
    {request : Request Prompt Base Plan} {lane : Lane} {plan : Plan}
    (unit : PrefillUnit Dev)
    (hplaced : Inv c (s.setSlot lane
      (some (request.admitted (api.planSummary plan) cls epoch)))) :
    Inv c (startAdmitted api c s request lane plan cls epoch unit).state := by
  unfold startAdmitted
  dsimp only
  generalize hslotted : s.setSlot lane
    (some (request.admitted (api.planSummary plan) cls epoch)) = t
  rw [hslotted] at hplaced
  have hversions : Shrinks t (t.invalidateLanePlans lane) :=
    .of_books rfl rfl rfl rfl rfl rfl
  refine hplaced.shrinks (hversions.trans ?_)
  split
  · split
    · exact admissionFails_shrinks api _ lane false
    · refine Shrinks.trans ?_ (startTarget_shrinks api _ _ lane plan _ unit)
      exact .of_books rfl rfl rfl rfl rfl rfl
  · exact startTarget_shrinks api _ _ lane plan _ unit

/-- An admission keeps the invariant when its lane is free, its request is
pending, and the standing protection is the request's own or admits it. -/
theorem admitPlannedRequest_inv
    (hinv : Inv c s) {request q : Request Prompt Base Plan}
    {choice : LaneChoice} (seen : Observations) (unit : PrefillUnit Dev)
    (hq : q ∈ s.pending) (hid : request.id = q.id)
    (hlane : choice.lane ∈ c.lanes) (hfree : s.slots choice.lane = none)
    (henters : ∀ plan, request.lanePlans choice.lane = some plan →
      ∀ p, s.protection = some p → p.headRequestId = request.id
        ∨ EntersUnder c s p epoch cls (api.planSummary plan).admission) :
    Inv c (admitPlannedRequest api c s request choice cls epoch seen unit
      ).state := by
  unfold admitPlannedRequest
  split
  · exact hinv.shrinks (removePending_shrinks s _)
  split
  · exact hinv.shrinks (removePending_shrinks s _)
  split
  · exact hinv
  next plan hplan =>
  dsimp only
  -- eviction touches the Program only
  generalize hevicted : (if choice.evictRetained = true then
    evictUntilAdmissible api choice.lane plan c.lanes s else s) = t
  have hbooks : t.slots = s.slots ∧ t.pending = s.pending
      ∧ t.protection = s.protection ∧ t.nextRequestId = s.nextRequestId
      ∧ t.frozenCredit = s.frozenCredit
      ∧ t.temporalWork = s.temporalWork := by
    rw [← hevicted]
    split
    · exact evictUntilAdmissible_books api choice.lane plan c.lanes s
    · exact ⟨rfl, rfl, rfl, rfl, rfl, rfl⟩
  obtain ⟨hslots, hpending, hprotection, hnext, hfrozen, hwork⟩ := hbooks
  have hinvT : Inv c t := hinv.shrinks
    (.of_books hpending hslots hprotection hnext hfrozen hwork)
  split
  · exact hinvT
  have hinvE : Inv c (t.erasePending request.id) :=
    hinvT.shrinks (erasePending_shrinks t _)
  have hpaid := payTemporal_inv hinvE (api.planSummary plan) cls epoch
  cases hpay : payTemporal (t.erasePending request.id) (api.planSummary plan)
      cls epoch with
  | throw e u =>
    rw [hpay] at hpaid
    exact hpaid
  | ok u =>
    rw [hpay] at hpaid
    obtain ⟨hupending, huslots, hunext, huprotection⟩ :=
      payTemporal_books hpay
    have hinvU : Inv c (u.clearProtectionIfHead request.id) :=
      Inv.shrinks hpaid (clearProtectionIfHead_shrinks u _)
    obtain ⟨hcslots, hcpending, hcnext, hcprotection⟩ :=
      clearProtectionIfHead_books u request.id
    have hslots' : (u.clearProtectionIfHead request.id).slots = s.slots := by
      rw [hcslots, huslots]
      exact hslots
    have hactive : (u.clearProtectionIfHead request.id).active c
        = s.active c := by
      unfold active
      rw [hslots']
    refine startAdmitted_inv api c unit (Inv.place hinvU hlane ?_ ?_ ?_ ?_ ?_)
    · rw [hslots', hfree]
    · show request.id < _
      rw [hcnext, hunext]
      show request.id < t.nextRequestId
      rw [hnext, hid]
      exact hinv.pending_lt q hq
    · intro r hr
      rw [hcpending, hupending] at hr
      have := (mem_filter.mp hr).2
      show r.id ≠ request.id
      simpa using this
    · intro l r' hr'
      rw [hslots'] at hr'
      show r'.id ≠ request.id
      rw [hid]
      exact (hinv.apart q hq l r' hr').symm
    · intro p hp
      obtain ⟨hp', hne⟩ := hcprotection p hp
      obtain ⟨p', hp'', hfields⟩ := huprotection p hp'
      have hstanding : s.protection = some p' := by
        rw [← hprotection]
        exact hp''
      rw [hfields] at hne ⊢
      refine ⟨?_, ?_⟩
      · show request.id ∉ p'.incumbentIds
        rw [hid]
        exact (hinv.epoch p' hstanding).fresh q hq
      · rcases henters plan hplan p' hstanding with hhead | henter
        · exact absurd hhead hne
        · unfold EntersUnder at henter ⊢
          rw [hactive]
          exact henter

/-- The candidate loop, under the protection `p` it was started with. -/
theorem backfillFrom_inv (p : AdmissionProtection)
    (active : List ActiveAdmissionSnapshot) (distance : Nat)
    (seen : Observations) (unit : PrefillUnit Dev) :
    ∀ (queued : List (Request Prompt Base Plan))
      (s : State π Prompt Base Plan), Inv c s →
      (queued.map (·.id)).Sublist (s.pending.map (·.id)) →
      active = (s.active c).map snapshot →
      (∀ p', s.protection = some p' → p' = p) →
      Inv c (backfillFrom api c p active distance seen unit queued s
        ).state := by
  intro queued
  induction queued with
  | nil => intro s hinv _ _ _; exact hinv
  | cons candidate rest ih =>
    intro s hinv hsub hactive hprot
    have hrest : (rest.map (·.id)).Sublist (s.pending.map (·.id)) :=
      ((sublist_cons_self _ _).map _).trans hsub
    -- a candidate that leaves the queue leaves the others in it
    have hdrop : ∀ t : State π Prompt Base Plan,
        t.pending.map (·.id) = s.pending.map (·.id) →
        (rest.map (·.id)).Sublist
          ((t.removePending candidate.id).pending.map (·.id)) := by
      intro t ht
      have hpending : (t.removePending candidate.id).pending
          = t.pending.filter fun r => r.id != candidate.id :=
        (clearProtectionIfHead_books (t.erasePending candidate.id)
          candidate.id).2.1
      have hids : ((t.removePending candidate.id).pending.map (·.id))
          = (t.pending.map (·.id)).filter (· != candidate.id) := by
        rw [hpending, filter_map]
        rfl
      rw [hids, ht]
      have hnotin : candidate.id ∉ rest.map (·.id) := by
        have hnodup := hsub.nodup hinv.pending_nodup
        rw [map_cons, nodup_cons] at hnodup
        exact hnodup.1
      have hkeep : (rest.map (·.id)).filter (· != candidate.id)
          = rest.map (·.id) := by
        rw [filter_eq_self]
        intro id hid
        have : id ≠ candidate.id := fun h => hnotin (h ▸ hid)
        simpa using this
      rw [← hkeep]
      exact hrest.filter _
    have hremoved : ∀ t : State π Prompt Base Plan, Inv c t →
        t.pending.map (·.id) = s.pending.map (·.id) →
        t.slots = s.slots → t.protection = s.protection →
        Inv c (backfillFrom api c p active distance seen unit rest
          (t.removePending candidate.id)).state := by
      intro t hinvT hids hslots hprotection
      obtain ⟨hcslots, _, _, hcprotection⟩ := clearProtectionIfHead_books
        (t.erasePending candidate.id) candidate.id
      refine ih _ (hinvT.shrinks (removePending_shrinks t _)) (hdrop t hids) ?_ ?_
      · rw [hactive]
        unfold State.active State.removePending
        rw [hcslots]
        show _ = List.map snapshot (c.lanes.filterMap t.slots)
        rw [hslots]
      · intro p' hp'
        refine hprot p' ?_
        rw [← hprotection]
        exact (hcprotection p' hp').1
    obtain ⟨q, hq, hqid⟩ : ∃ q ∈ s.pending, q.id = candidate.id := by
      have hmem : candidate.id ∈ s.pending.map (·.id) :=
        hsub.subset (by simp)
      obtain ⟨q, hq, hid⟩ := mem_map.mp hmem
      exact ⟨q, hq, hid⟩
    unfold backfillFrom
    split
    · exact hremoved s hinv rfl rfl rfl
    · split
      · exact hremoved s hinv rfl rfl rfl
      · next planned base hbase =>
        obtain ⟨hplanned, _⟩ := ensureBasePlan_ok hbase
        have hplannedId : planned.id = candidate.id := by
          rw [hplanned]
        have hinvP : Inv c (s.updatePending planned) :=
          hinv.shrinks (updatePending_shrinks s planned)
        dsimp only
        split
        · exact hremoved _ hinvP (updatePending_ids s planned) rfl rfl
        · split
          · exact hremoved _ hinvP (updatePending_ids s planned) rfl rfl
          · next placed hfind =>
            refine ih _ (hinvP.shrinks
              (updatePending_shrinks _ placed)) ?_ hactive hprot
            rw [updatePending_ids, updatePending_ids]
            exact hrest
          · next placed choice hfind =>
            obtain ⟨hreplanned, hlane, hfree, _⟩ :=
              findAdmissionLane_some hfind
            have hinvQ := hinvP.shrinks (updatePending_shrinks _ placed)
            split
            · refine ih _ hinvQ ?_ hactive hprot
              rw [updatePending_ids, updatePending_ids]
              exact hrest
            · next hclass =>
              have hid : placed.id = candidate.id :=
                hreplanned.id.trans hplannedId
              obtain ⟨q', hq', hqid'⟩ : ∃ q' ∈
                  ((s.updatePending planned).updatePending
                    placed).pending, q'.id = candidate.id := by
                have hmem : candidate.id ∈
                    ((s.updatePending planned).updatePending
                      placed).pending.map (·.id) := by
                  rw [updatePending_ids, updatePending_ids, ← hqid]
                  exact mem_map_of_mem hq
                obtain ⟨q', hq', hid'⟩ := mem_map.mp hmem
                exact ⟨q', hq', hid'⟩
              refine admitPlannedRequest_inv api c hinvQ seen unit
                hq' (hid.trans hqid'.symm) hlane hfree ?_
              intro plan hplan p' hp'
              have hpp : p' = p := hprot p' hp'
              subst hpp
              right
              rw [hplan] at hclass ⊢
              simp only [elim_some] at hclass ⊢
              refine ⟨rfl, ?_⟩
              unfold backfillClassOf at hclass ⊢
              split
              · next hsafe =>
                right
                refine ⟨rfl, ?_⟩
                rw [persistentBackfillIsSafe_iff, hactive] at hsafe
                exact hsafe
              · next hunsafe =>
                left
                rw [if_neg hunsafe] at hclass
                split at hclass
                · next hwork => rw [if_pos hwork]
                · exact absurd rfl hclass

variable {active : List ActiveAdmissionSnapshot}

/-- A protection is made for the active requests of the moment. -/
theorem ensureProtection_inv
    (hinv : Inv c s) (headId : Nat) (head : AdmissionResources)
    (hactive : active = (s.active c).map snapshot) :
    Inv c (ensureProtection c s headId head active).state := by
  unfold ensureProtection
  split
  · exact hinv
  · dsimp only
    split
    · exact hinv.shrinks (.of_books rfl rfl rfl rfl rfl rfl)
    · next p hmade =>
      refine ⟨hinv.pending_nodup, hinv.pending_lt, hinv.slots_lanes,
        hinv.slots_lt, hinv.slots_distinct, hinv.apart, ?_⟩
      intro p' hp'
      replace hp' : some p = some p' := hp'
      rw [← some.inj hp']
      have hslot : ∀ id ∈ active.map (·.requestId),
          ∃ lane r, s.slots lane = some r ∧ r.id = id := by
        intro id hid
        rw [hactive, map_map] at hid
        obtain ⟨r, hr, hrid⟩ := mem_map.mp hid
        unfold State.active at hr
        obtain ⟨lane, _, hlane⟩ := mem_filterMap.mp hr
        exact ⟨lane, r, hlane, hrid⟩
      have hnodup : (active.map (·.requestId)).Nodup := by
        rw [hactive, map_map]
        unfold State.active
        rw [map_filterMap]
        refine List.Nodup.filterMap ?_ lanes_nodup
        intro lane lane' id hid hid'
        simp only [mem_def, map_eq_some_iff] at hid hid'
        obtain ⟨r, hr, hrid⟩ := hid
        obtain ⟨r', hr', hrid'⟩ := hid'
        exact hinv.slots_distinct lane lane' r r' hr hr' (hrid.trans hrid'.symm)
      obtain ⟨hepoch, hhead, hres, hincumbents, hfits⟩ :=
        makeAdmissionProtection_ok hmade hnodup
      refine ⟨⟨active, p, ?_, rfl, rfl, rfl⟩, ?_, ?_, ?_, ?_, ?_⟩
      · rw [hepoch, hhead, hres]
        exact hmade
      · intro id hid
        rw [hincumbents] at hid
        obtain ⟨lane, r, hr, hrid⟩ := hslot id hid
        rw [← hrid]
        exact hinv.slots_lt lane r hr
      · intro q hq hmem
        rw [hincumbents] at hmem
        obtain ⟨lane, r, hr, hrid⟩ := hslot q.id hmem
        exact hinv.apart q hq lane r hr hrid.symm
      · intro lane r hr
        left
        rw [hincumbents, hactive, map_map]
        refine mem_map.mpr ⟨r, ?_, rfl⟩
        exact mem_filterMap.mpr ⟨lane, hinv.slots_lanes lane r hr, hr⟩
      · intro k
        have hk := hfits k
        rw [← hres, hactive] at hk
        exact hk
      · show 0 + p.temporalCredit = p.temporalCredit
        omega

theorem drainOrBackfill_inv (hinv : Inv c s)
    {queued : List (Request Prompt Base Plan)} (seen : Observations)
    (unit : PrefillUnit Dev)
    (hqueued : (queued.map (·.id)).Sublist (s.pending.map (·.id)))
    (hactive : active = (s.active c).map snapshot) :
    Inv c (drainOrBackfill api c s active queued seen unit).state := by
  unfold drainOrBackfill
  split
  · exact hinv
  · next p hp =>
    dsimp only
    generalize hphase : (if protectedHeadSafeWithoutTemporal p active
      c.capacity = true then { p with phase := .drain } else p) = p'
    have hfields : p' = { p with phase := p'.phase } := by
      rw [← hphase]
      split <;> rfl
    have hinv' : Inv c { s with protection := some p' } := by
      refine hinv.shrinks ⟨List.Sublist.refl _,
        fun _ r h => ⟨r, h, .refl r⟩, ?_, le_refl _, rfl, rfl⟩
      intro p'' hp''
      replace hp'' : some p' = some p'' := hp''
      rw [← some.inj hp'']
      exact ⟨p, hp, hfields⟩
    split
    · exact hinv'
    · refine backfillFrom_inv api c p' active _ seen unit queued _ hinv'
        hqueued hactive ?_
      intro p'' hp''
      exact (some.inj hp'').symm

theorem ensureProtection_books {headId : Nat} {head : AdmissionResources}
    (h : ensureProtection c s headId head active = .ok t) :
    t.pending = s.pending ∧ t.slots = s.slots := by
  unfold ensureProtection at h
  split at h
  · simp only [Outcome.ok.injEq] at h
    rw [← h]
    exact ⟨rfl, rfl⟩
  · dsimp only at h
    split at h
    · exact absurd h (by simp)
    · simp only [Outcome.ok.injEq] at h
      rw [← h]
      exact ⟨rfl, rfl⟩

theorem protectHead_inv (hinv : Inv c s)
    (headId : Nat) (head : AdmissionResources)
    {queued : List (Request Prompt Base Plan)} (seen : Observations)
    (unit : PrefillUnit Dev)
    (hqueued : (queued.map (·.id)).Sublist (s.pending.map (·.id))) :
    Inv c (protectHead api c s headId head queued seen unit).state := by
  unfold protectHead
  split
  · exact hinv
  · next active hset =>
    have hactive : active = (s.active c).map snapshot := by
      unfold activeAdmissionSet at hset
      split at hset
      · exact absurd hset (by simp)
      · exact (Except.ok.inj hset).symm
    split
    · exact hinv
    · have hmade := ensureProtection_inv c hinv headId head hactive
      cases hensure : ensureProtection c s headId head active with
      | throw e t =>
        rw [hensure] at hmade
        exact hmade
      | ok t =>
        rw [hensure] at hmade
        obtain ⟨hpending, hslots⟩ := ensureProtection_books c hensure
        refine drainOrBackfill_inv api c hmade seen unit ?_ ?_
        · show (queued.map (·.id)).Sublist (t.pending.map (·.id))
          rw [hpending]
          exact hqueued
        · rw [hactive]
          unfold State.active
          show _ = List.map snapshot (c.lanes.filterMap t.slots)
          rw [hslots]

/-- One pass of `try_admit_one`. -/
theorem tryAdmitOne_inv (hinv : Inv c s)
    (seen : Observations) (unit : PrefillUnit Dev) :
    Inv c (tryAdmitOne api c s seen unit).state := by
  unfold tryAdmitOne
  split
  · exact hinv.shrinks (endProtection_shrinks s)
  · next head queued hpending =>
    dsimp only
    -- a protection that stands is the head's own
    generalize hreset : (if (s.protection.any fun p =>
      p.headRequestId != head.id) = true
      then { s with protection := none } else s) = t
    have hshrinks : Shrinks s t := by
      rw [← hreset]
      split
      · exact endProtection_shrinks s
      · exact .refl s
    have hbooks : t.pending = head :: queued
        ∧ ∀ p, t.protection = some p → p.headRequestId = head.id := by
      rw [← hreset]
      split
      · exact ⟨hpending, fun p hp => absurd hp (by simp)⟩
      · next hown =>
        refine ⟨hpending, ?_⟩
        intro p hp
        rw [hp] at hown
        simpa using hown
    obtain ⟨htpending, hown⟩ := hbooks
    have hinvT : Inv c t := hinv.shrinks hshrinks
    split
    · exact hinvT.shrinks (removePending_shrinks t _)
    · split
      · exact hinvT.shrinks (removePending_shrinks t _)
      · next planned base hbase =>
        have hplannedId : planned.id = head.id := by
          rw [(ensureBasePlan_ok hbase).1]
        have hinvP : Inv c (t.updatePending planned) :=
          hinvT.shrinks (updatePending_shrinks t planned)
        split
        · exact hinvP.shrinks (removePending_shrinks _ _)
        · split
          · exact hinvP.shrinks (removePending_shrinks _ _)
          · next placed choice hfind =>
            obtain ⟨hreplanned, hlane, hfree, _⟩ :=
              findAdmissionLane_some hfind
            have hid : placed.id = head.id :=
              hreplanned.id.trans hplannedId
            have hmem : head.id ∈ ((t.updatePending planned
                ).updatePending placed).pending.map (·.id) := by
              rw [updatePending_ids, updatePending_ids, htpending]
              simp
            obtain ⟨q, hq, hqid⟩ := mem_map.mp hmem
            refine admitPlannedRequest_inv api c
              (hinvP.shrinks (updatePending_shrinks _ placed)) seen
              unit hq (hid.trans hqid.symm) hlane hfree ?_
            intro plan _ p hp
            exact .inl ((hown p hp).trans hid.symm)
          · next placed hfind =>
            refine protectHead_inv api c
              (hinvP.shrinks (updatePending_shrinks _ placed)) head.id
              _ seen unit ?_
            rw [updatePending_ids, updatePending_ids, htpending]
            exact (sublist_cons_self _ _).map _

-- ============ runs

theorem settle_inv {o : Outcome (State π Prompt Base Plan)}
    (h : Inv c o.state) : Inv c (settle api c o) := by
  cases o with
  | ok s => exact h
  | throw e s => exact Inv.shrinks h (failAll_shrinks api s)

/-- Every unit keeps the invariant. -/
theorem step_inv {a : Action Prompt Dev} (h : step api c s a = some s')
    (hinv : Inv c s) : Inv c s' := by
  cases a with
  | submit prompt =>
    simp only [step] at h
    split at h
    · exact absurd h (by simp)
    · rw [← some.inj h]
      -- a fresh id is above every id given out
      refine ⟨?_, ?_, hinv.slots_lanes, ?_, hinv.slots_distinct, ?_, ?_⟩
      · show (List.map Request.id
          (s.pending ++ [.submitted s.nextRequestId prompt])).Nodup
        rw [map_append, nodup_append]
        refine ⟨hinv.pending_nodup, by simp, ?_⟩
        intro id hid id' hid'
        obtain ⟨r, hr, hrid⟩ := mem_map.mp hid
        have := hinv.pending_lt r hr
        simp only [map_cons, map_nil, mem_singleton, Request.submitted] at hid'
        omega
      · intro r hr
        rcases mem_append.mp hr with hr | hr
        · exact Nat.lt_succ_of_lt (hinv.pending_lt r hr)
        · rw [mem_singleton] at hr
          subst hr
          exact Nat.lt_succ_self _
      · intro lane r hr
        exact Nat.lt_succ_of_lt (hinv.slots_lt lane r hr)
      · intro q hq lane r hr
        rcases mem_append.mp hq with hq | hq
        · exact hinv.apart q hq lane r hr
        · rw [mem_singleton] at hq
          subst hq
          exact ne_of_gt (hinv.slots_lt lane r hr)
      · intro p hp
        obtain ⟨hmade, hlt, hfresh, hmembers, hfits, hpaid⟩ :=
          hinv.epoch p hp
        refine ⟨hmade, fun id hid => Nat.lt_succ_of_lt (hlt id hid), ?_,
          hmembers, hfits, hpaid⟩
        intro q hq
        rcases mem_append.mp hq with hq | hq
        · exact hfresh q hq
        · rw [mem_singleton] at hq
          subst hq
          intro hmem
          exact lt_irrefl _ (hlt _ hmem)
  | expire gone =>
    simp only [step] at h
    split at h
    · exact absurd h (by simp)
    · rw [← some.inj h]
      exact hinv.shrinks (expirePendingRequests_shrinks s gone)
  | cancel cancelled =>
    simp only [step] at h
    split at h
    · exact absurd h (by simp)
    · rw [← some.inj h]
      exact hinv.shrinks (cancelActiveRequests_shrinks api s cancelled)
  | tryAdmit seen unit =>
    simp only [step] at h
    split at h
    · exact absurd h (by simp)
    · rw [← some.inj h]
      exact settle_inv api c (tryAdmitOne_inv api c hinv seen unit)
  | prefill unit =>
    simp only [step] at h
    split at h
    · exact absurd h (by simp)
    · rw [← some.inj h]
      exact settle_inv api c (hinv.shrinks (runPrefillStep_shrinks api s unit))
  | decode unit =>
    simp only [step] at h
    split at h
    · exact absurd h (by simp)
    · rw [← some.inj h]
      exact settle_inv api c (hinv.shrinks (runDecodeRound_shrinks api s unit))

theorem init_inv (p : π) :
    Inv c (init p : State π Prompt Base Plan) where
  pending_nodup := nodup_nil
  pending_lt := fun _ h => absurd h (by simp [init])
  slots_lanes := fun _ _ h => absurd h (by simp [init])
  slots_lt := fun _ _ h => absurd h (by simp [init])
  slots_distinct := fun _ _ _ _ h => absurd h (by simp [init])
  apart := fun _ h => absurd h (by simp [init])
  epoch := fun _ h => absurd h (by simp [init])

/-- Once every donor has left, whatever is still counted without the
temporal backfills counted at the frontier. -/
theorem Epoch.safe_without_donors {p : AdmissionProtection} (h : Epoch c s p)
    (hdonors : ∀ lane r, s.slots lane = some r → r.id ∉ p.donorIds) :
    protectedHeadSafeWithoutTemporal p ((s.active c).map snapshot)
      c.capacity = true := by
  rw [protectedHeadSafeWithoutTemporal_iff]
  intro k
  have hcounts : ((s.active c).map snapshot).filter (countsWithoutTemporal p)
      = ((s.active c).map snapshot).filter (countsAtFrontier p) := by
    refine filter_congr ?_
    intro r hr
    obtain ⟨q, hq, rfl⟩ := mem_map.mp hr
    obtain ⟨lane, _, hslot⟩ := mem_filterMap.mp hq
    have hdonor : isDonor p q.id = false := by
      simpa [isDonor] using hdonors lane q hslot
    by_cases hincumbent : isIncumbent p q.id = true
    · simp [countsWithoutTemporal, countsAtFrontier, snapshot,
        hincumbent, hdonor]
    · have hnot : q.id ∉ p.incumbentIds := by
        simpa [isIncumbent] using hincumbent
      rcases h.members lane q hslot with hin | ⟨hepoch, hclass⟩
      · exact absurd hin hnot
      · rcases hclass with hclass | hclass
        · simp [countsWithoutTemporal, countsAtFrontier, snapshot,
            hincumbent, hepoch, hclass]
        · simp [countsWithoutTemporal, countsAtFrontier, snapshot,
            hincumbent, hepoch, hclass]
  rw [hcounts]
  exact h.fits k

/-- The protected-head guarantee: at every unit boundary of every run of
the executor, over any target, a standing protection was made by the
policy, its head fits beside the surviving incumbents that are no donors
and the epoch's persistent backfills, fits without temporal backfills
once the donors have left, and has spent no more than its credit on
temporal backfills. -/
theorem protected_head_run (p₀ : π) (acts : List (Action Prompt Dev))
    (s : State π Prompt Base Plan)
    (hrun : run (step api c) (State.init p₀) acts = some s)
    (p : AdmissionProtection) (hp : s.protection = some p) :
    (∃ active frozen,
      makeAdmissionProtection p.epochId p.headRequestId p.headResources
          active c.capacity = .ok frozen
        ∧ p.incumbentIds = frozen.incumbentIds
        ∧ p.donorIds = frozen.donorIds
        ∧ s.frozenCredit = frozen.temporalCredit)
      ∧ FrontierFits c s p
      ∧ ((∀ lane r, s.slots lane = some r → r.id ∉ p.donorIds) →
        protectedHeadSafeWithoutTemporal p ((s.active c).map State.snapshot)
          c.capacity = true)
      ∧ s.temporalWork ≤ s.frozenCredit := by
  have hinv : Inv c s := run_inv (fun s a s' h => step_inv api c h) hrun
    (init_inv c p₀)
  have hepoch := hinv.epoch p hp
  refine ⟨hepoch.made, hepoch.fits, hepoch.safe_without_donors c, ?_⟩
  have := hepoch.paid
  omega

/-- A target that does nothing but count pages, out of a pool of four: a
prompt is its page count and its service work, and every request
generates one token at its start and is decoded from there. -/
def pageCounter : ProgramApi (Lane → Nat) (Nat × Nat) (Nat × Nat)
    (Nat × Nat) Unit :=
  let summary := fun prompt : Nat × Nat =>
    { promptTokens := 1, reusablePromptTokens := 0,
      effectiveOutputTokens := prompt.2, transientBytes := 0,
      transientAlignment := 1, admission := ⟨1, prompt.1, 0⟩,
      serviceWorkQuanta := prompt.2 }
  let canAdmit := fun (p : Lane → Nat) (lane : Lane) (plan : Nat × Nat) =>
    decide (((List.finRange maximumConcurrency).map fun l =>
      if l = lane then 0 else p l).sum + plan.1 ≤ 4)
  { planRequestBase := fun _ prompt => .ok prompt
    baseSummary := summary
    planRequestForLane := fun _ _ _ base => .ok base
    planSummary := summary
    canAdmitLane := canAdmit
    canAdmitLaneAfterRetainedEviction := canAdmit
    hasRetainedLane := fun _ _ => false
    evictRetainedLane := fun p _ => p
    startPrefillLane := fun p lane _ plan _ _ =>
      .ok (update p lane plan.1)
    advancePrefillLane := fun p _ _ => .ok p
    prefillComplete := fun _ _ => true
    resolvePrefillLane := fun p lane terminal =>
      .ok (if terminal then update p lane 0 else p)
    decodeBatch := fun p _ _ => .ok p
    rowCount := fun _ _ => 1
    resolvePendingBatch := fun p rows =>
      .ok (rows.foldl (fun p row =>
        if row.terminal then update p row.lane 0 else p) p)
    abortLane := fun p lane => update p lane 0 }

/-- Two lanes over the four pages. -/
def pageCounterConfig : Config where
  maxConcurrency := 2
  capacity := ⟨2, 4, 0⟩
  frozenTransientBytes := 0
  max_concurrency_pos := by decide
  max_concurrency_le := by decide
  capacity_lanes := rfl
  capacity_main_pos := by decide

/-- A three-page request is admitted; a second one behind it is protected,
with the first as its donor; a one-page request is backfilled beside it,
and then the donor decodes one token. -/
def backfillScript : List (Action (Nat × Nat) Unit) :=
  let seen : Observations :=
    ⟨fun _ => false, fun _ => false, fun _ => false, fun _ => false⟩
  let unit : PrefillUnit Unit := ⟨(), false, fun _ => .ok ⟨1, false⟩⟩
  [.submit (3, 5), .submit (3, 4), .submit (1, 9), .tryAdmit seen unit,
    .tryAdmit seen unit,
    .decode ⟨(), fun _ => false, fun _ _ => .ok ⟨1, false⟩⟩]

theorem protected_head_run_backfill :
    ∃ s p, run (step pageCounter pageCounterConfig)
        (State.init fun _ => 0) backfillScript = some s
      ∧ s.protection = some p ∧ p.headRequestId = 2 ∧ p.donorIds = [1]
      ∧ (s.active pageCounterConfig).map (·.id) = [1, 3]
      ∧ FrontierFits pageCounterConfig s p
      ∧ s.temporalWork ≤ s.frozenCredit := by
  have hrun : (run (step pageCounter pageCounterConfig)
      (State.init fun _ => 0) backfillScript).map
        (fun s => (s.protection.map fun p => (p.headRequestId, p.donorIds),
          (s.active pageCounterConfig).map (·.id)))
      = some (some (2, [1]), [1, 3]) := by
    decide +kernel
  obtain ⟨s, hs, hview⟩ := Option.map_eq_some_iff.mp hrun
  simp only [Prod.mk.injEq, Option.map_eq_some_iff] at hview
  obtain ⟨⟨p, hp, hhead, hdonors⟩, hactive⟩ := hview
  obtain ⟨_, hfits, _, hwork⟩ := protected_head_run pageCounter
    pageCounterConfig (fun _ => 0) backfillScript s hs p hp
  exact ⟨s, p, hs, hp, hhead, hdonors, hactive, hfits, hwork⟩

end Ginfer.Admission
