/-
What the lane search of `find_admission_lane` returns.

The two loops are one function with a different test (`scanLanes`), so
one induction says what either of them has done when it returns
(`Scanned`): it left the request's identity alone, every plan now cached
was cached before or planned for its lane, the lane it selected is free
and passed the test with its cached plan, and when it selected none every
free lane failed the test.
-/
import Ginfer.Executor.Scheduler

namespace Ginfer.Admission

open Ginfer.Lib List Function Prod

variable {π Prompt Base Plan Dev : Type}
  {api : ProgramApi π Prompt Base Plan Dev} {c : Config}

/-- A plan `request` may hold for `lane`: one it held before, or one made
for the lane now. -/
def PlannedFor (api : ProgramApi π Prompt Base Plan Dev)
    (s : State π Prompt Base Plan) (request : Request Prompt Base Plan)
    (base : Base) (lane : Lane) (plan : Plan) : Prop :=
  request.lanePlans lane = some plan
    ∨ api.planRequestForLane s.program lane request.prompt base = .ok plan

/-- What a planning call changes in a request: its cached plans. -/
structure Replanned (api : ProgramApi π Prompt Base Plan Dev)
    (s : State π Prompt Base Plan) (base : Base)
    (request request' : Request Prompt Base Plan) : Prop where
  id : request'.id = request.id
  prompt : request'.prompt = request.prompt
  basePlan : request'.basePlan = request.basePlan
  plans : ∀ lane plan, request'.lanePlans lane = some plan →
    PlannedFor api s request base lane plan

theorem Replanned.refl (s : State π Prompt Base Plan) (base : Base)
    (request : Request Prompt Base Plan) :
    Replanned api s base request request :=
  ⟨rfl, rfl, rfl, fun _ _ h => .inl h⟩

variable {s : State π Prompt Base Plan} {base : Base}

theorem Replanned.trans {r r' r'' : Request Prompt Base Plan}
    (h : Replanned api s base r r') (h' : Replanned api s base r' r'') :
    Replanned api s base r r'' := by
  refine ⟨h'.id.trans h.id, h'.prompt.trans h.prompt,
    h'.basePlan.trans h.basePlan, ?_⟩
  intro lane plan hplan
  rcases h'.plans lane plan hplan with hcached | hmade
  · exact h.plans lane plan hcached
  · rw [h.prompt] at hmade
    exact .inr hmade

variable {request request' : Request Prompt Base Plan}

/-- `ensure_lane_plan` caches the plan it returns and no other. -/
theorem ensureLanePlan_ok {lane : Lane} {plan : Plan}
    (h : ensureLanePlan api s request base lane = .ok (request', plan)) :
    Replanned api s base request request' ∧ request'.lanePlans lane = some plan
      ∧ ∀ l, l ≠ lane → request'.lanePlans l = request.lanePlans l := by
  have hreplan : ensureLanePlan.replan api s request base lane
        = .ok (request', plan) →
      Replanned api s base request request' ∧ request'.lanePlans lane = some plan
        ∧ ∀ l, l ≠ lane → request'.lanePlans l = request.lanePlans l := by
    intro h
    unfold ensureLanePlan.replan at h
    split at h
    · exact absurd h (by simp)
    · next made hmade =>
      simp only [Except.ok.injEq, mk.injEq] at h
      obtain ⟨hrequest, rfl⟩ := h
      subst hrequest
      refine ⟨⟨rfl, rfl, rfl, ?_⟩, update_self .., ?_⟩
      · intro l p hp
        by_cases hl : l = lane
        · subst hl
          replace hp : update request.lanePlans l (some made) l
            = some p := hp
          rw [update_self] at hp
          rw [← Option.some.inj hp]
          exact .inr hmade
        · replace hp : update request.lanePlans lane (some made) l
            = some p := hp
          rw [update_of_ne hl] at hp
          exact .inl hp
      · intro l hl
        exact update_of_ne hl ..
  unfold ensureLanePlan at h
  split at h
  · next cached hcached =>
    split at h
    · simp only [Except.ok.injEq, mk.injEq] at h
      obtain ⟨rfl, rfl⟩ := h
      exact ⟨.refl s base request, hcached, fun _ _ => rfl⟩
    · exact hreplan h
  · exact hreplan h

/-- What a scan of `lanes` has done when it returns. -/
structure Scanned (api : ProgramApi π Prompt Base Plan Dev)
    (s : State π Prompt Base Plan) (base : Base)
    (admissible : Lane → Plan → Bool) (lanes : List Lane)
    (request request' : Request Prompt Base Plan)
    (selected : Option (Lane × Nat)) : Prop where
  replanned : Replanned api s base request request'
  chosen : ∀ lane reuse, selected = some (lane, reuse) → lane ∈ lanes
    ∧ s.slots lane = none
    ∧ ∃ plan, request'.lanePlans lane = some plan ∧ admissible lane plan = true
  exhausted : selected = none → ∀ lane ∈ lanes, s.slots lane = none →
    ∃ plan, request'.lanePlans lane = some plan ∧ admissible lane plan = false

/-- The scan, from a selection among the lanes already visited. -/
theorem scanLanes_scanned {admissible : Lane → Plan → Bool} (rest : List Lane) :
    ∀ {visited : List Lane} {request request' request'' :
        Request Prompt Base Plan} {sel result : Option (Lane × Nat)},
      (visited ++ rest).Nodup →
      Scanned api s base admissible visited request request' sel →
      scanLanes api s base admissible rest request' sel
        = .ok (request'', result) →
      Scanned api s base admissible (visited ++ rest) request request''
        result := by
  induction rest with
  | nil =>
    intro visited request request' request'' sel result _ hsofar h
    simp only [scanLanes, Except.ok.injEq, mk.injEq] at h
    obtain ⟨rfl, rfl⟩ := h
    simpa using hsofar
  | cons lane rest ih =>
    intro visited request request' request'' sel result hnodup hsofar h
    have hassoc : visited ++ lane :: rest = (visited ++ [lane]) ++ rest := by
      simp
    have hnew : lane ∉ visited := by
      intro hmem
      have hdisj := (nodup_append.mp hnodup).2.2
      exact hdisj lane hmem lane mem_cons_self rfl
    rw [hassoc] at hnodup ⊢
    unfold scanLanes at h
    split at h
    · next hbusy =>
      refine ih hnodup ?_ h
      refine ⟨hsofar.replanned, ?_, ?_⟩
      · intro l n hl
        obtain ⟨hmem, hrest⟩ := hsofar.chosen l n hl
        exact ⟨mem_append_left _ hmem, hrest⟩
      · intro hnone l hl hfree
        rcases mem_append.mp hl with hl | hl
        · exact hsofar.exhausted hnone l hl hfree
        · rw [mem_singleton] at hl
          subst hl
          rw [hfree] at hbusy
          exact absurd hbusy (by simp)
    · next hfree =>
      have hfree : s.slots lane = none := by simpa using hfree
      split at h
      · exact absurd h (by simp)
      · next planned plan hplan =>
        obtain ⟨hreplanned, hcached, hothers⟩ := ensureLanePlan_ok hplan
        dsimp only at h
        refine ih hnodup ?_ h
        refine ⟨hsofar.replanned.trans hreplanned, ?_, ?_⟩
        · intro l n hl
          split at hl
          · next hbetter =>
            simp only [Bool.and_eq_true] at hbetter
            simp only [Option.some.injEq, mk.injEq] at hl
            obtain ⟨rfl, _⟩ := hl
            exact ⟨by simp, hfree, plan, hcached, hbetter.1⟩
          · obtain ⟨hmem, hfree', p, hp, hadm⟩ := hsofar.chosen l n hl
            have hne : l ≠ lane := fun h => hnew (h ▸ hmem)
            refine ⟨mem_append_left _ hmem, hfree', p, ?_, hadm⟩
            rw [hothers l hne]
            exact hp
        · intro hnone l hl hfree'
          split at hnone
          · exact absurd hnone (by simp)
          · next hworse =>
            have hsel : sel = none := hnone
            rcases mem_append.mp hl with hl | hl
            · obtain ⟨p, hp, hadm⟩ :=
                hsofar.exhausted hsel l hl hfree'
              have hne : l ≠ lane := fun h => hnew (h ▸ hl)
              refine ⟨p, ?_, hadm⟩
              rw [hothers l hne]
              exact hp
            · rw [mem_singleton] at hl
              subst hl
              refine ⟨plan, hcached, ?_⟩
              rw [hsel] at hworse
              simpa using hworse

/-- A whole loop of `find_admission_lane`. -/
theorem scanLanes_ok {admissible : Lane → Plan → Bool}
    {result : Option (Lane × Nat)}
    (h : scanLanes api s base admissible c.lanes request none
      = .ok (request', result)) :
    Scanned api s base admissible c.lanes request request' result := by
  have hnodup : ([] ++ c.lanes).Nodup :=
    (nodup_finRange _).filter _
  have hstart : Scanned api s base admissible [] request request none :=
    ⟨.refl s base request, fun _ _ h => absurd h (by simp),
      fun _ lane hlane => absurd hlane (by simp)⟩
  have hscan := scanLanes_scanned c.lanes hnodup hstart h
  exact hscan

/-- A lane found by the search: free, with a cached plan that passed the
test of the loop that found it. -/
theorem findAdmissionLane_some {choice : LaneChoice}
    (h : findAdmissionLane api c s request base = .ok (request', some choice)) :
    Replanned api s base request request'
      ∧ choice.lane ∈ c.lanes ∧ s.slots choice.lane = none
      ∧ ∃ plan, request'.lanePlans choice.lane = some plan
        ∧ (if choice.evictRetained
        then api.canAdmitLaneAfterRetainedEviction s.program choice.lane plan
        else api.canAdmitLane s.program choice.lane plan) = true := by
  unfold findAdmissionLane at h
  split at h
  · exact absurd h (by simp)
  · next planned lane reuse hscan =>
    simp only [Except.ok.injEq, mk.injEq, Option.some.injEq] at h
    obtain ⟨rfl, rfl⟩ := h
    have hscanned := scanLanes_ok hscan
    obtain ⟨hmem, hfree, plan, hplan, hadm⟩ :=
      hscanned.chosen lane reuse rfl
    exact ⟨hscanned.replanned, hmem, hfree, plan, hplan, by simpa using hadm⟩
  · next planned hscan =>
    split at h
    · exact absurd h (by simp)
    · next planned' lane reuse hscan' =>
      simp only [Except.ok.injEq, mk.injEq, Option.some.injEq] at h
      obtain ⟨rfl, rfl⟩ := h
      have hscanned := scanLanes_ok hscan'
      obtain ⟨hmem, hfree, plan, hplan, hadm⟩ :=
        hscanned.chosen lane reuse rfl
      exact ⟨(scanLanes_ok hscan).replanned.trans hscanned.replanned,
        hmem, hfree, plan, hplan, by simpa using hadm⟩
    · exact absurd h (by simp)

/-- No lane found: every free lane failed the second loop's test. -/
theorem findAdmissionLane_none
    (h : findAdmissionLane api c s request base = .ok (request', none)) :
    Replanned api s base request request'
      ∧ ∀ lane ∈ c.lanes, s.slots lane = none →
        ∃ plan, request'.lanePlans lane = some plan
        ∧ api.canAdmitLaneAfterRetainedEviction s.program lane plan
          = false := by
  unfold findAdmissionLane at h
  split at h
  · exact absurd h (by simp)
  · exact absurd h (by simp)
  · next planned hscan =>
    split at h
    · exact absurd h (by simp)
    · exact absurd h (by simp)
    · next planned' hscan' =>
      simp only [Except.ok.injEq, mk.injEq, and_true] at h
      subst h
      have hscanned := scanLanes_ok hscan'
      exact ⟨(scanLanes_ok hscan).replanned.trans hscanned.replanned,
        hscanned.exhausted rfl⟩

/-- `ensure_base_plan` caches the plan it returns. -/
theorem ensureBasePlan_ok {p : π}
    (h : ensureBasePlan api p request = .ok (request', base)) :
    request' = { request with basePlan := some base }
      ∧ (request.basePlan = some base
        ∨ api.planRequestBase p request.prompt = .ok base) := by
  unfold ensureBasePlan at h
  cases hbase : request.basePlan with
  | some b =>
    rw [hbase] at h
    simp only [bind, Except.bind] at h
    split at h
    · exact absurd h (by simp)
    · simp only [Except.ok.injEq, mk.injEq] at h
      obtain ⟨rfl, rfl⟩ := h
      exact ⟨rfl, .inl rfl⟩
  | none =>
    rw [hbase] at h
    cases hplan : api.planRequestBase p request.prompt with
    | error e =>
      rw [hplan] at h
      exact absurd h (by simp [bind, Except.bind])
    | ok b =>
      rw [hplan] at h
      simp only [bind, Except.bind] at h
      split at h
      · exact absurd h (by simp)
      · simp only [Except.ok.injEq, mk.injEq] at h
        obtain ⟨rfl, rfl⟩ := h
        exact ⟨rfl, .inr rfl⟩

end Ginfer.Admission
