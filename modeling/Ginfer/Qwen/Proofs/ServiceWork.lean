/-
The service work of a request covers what it still has to do.

A plan projects the steps of a prefill and the tokens of an output; the
executor charges one unit for every prefill step and one for every token
it commits. `Accounted` is what every unit of the executor keeps: a
request in its prefill has work for the units ahead of its cursor and for
the tokens after the first (`Prefilling`); a decoding one has work for
the tokens of its budget, and a budget (`Decoding`).

A unit that throws ends in `fail_all`, which empties the slots: only the
units that return need an argument. Admission waits for the staged prefill
to end, so while requests are planned nothing in the invariant depends on
the Program (`Accounted.idle`).
-/
import Ginfer.Frontend.Proofs.Rounds
import Ginfer.Executor.Proofs.Protection
import Ginfer.Qwen.Target
import Ginfer.Qwen.Proofs.Units

namespace Ginfer.Qwen

open Ginfer.Lib Ginfer.Admission Function List Option Prod

-- ============ planning

section

variable {c : Config} {prompt : TargetPrompt} {plan : RequestPlan}

/-- A lane plan of this prompt. -/
def Planned (c : Config) (prompt : TargetPrompt) (plan : RequestPlan) :
    Prop :=
  ∃ (s : Program) (lane : Lane) (base : RequestBasePlan),
    planRequestBase c prompt.1 prompt.2 = .ok base
      ∧ s.planRequestForLane c lane prompt.1 base = .ok plan

variable {lane : Lane}

/-- The work a lane plan projects. -/
theorem planRequestForLane_work {s : Program}
    {p : PreparedPromptData} {base : RequestBasePlan}
    (h : s.planRequestForLane c lane p base = .ok plan) :
    plan.summary.serviceWorkQuanta
      = projectedServiceWork plan.summary.promptTokens
        plan.summary.effectiveOutputTokens plan.reuseBase c.prefillChunk
        ((plan.vision.map fun v => v.uses.length).getD 0
          + checkpointSplits plan.rewriteCheckpointCapture
              plan.summary.promptTokens) := by
  unfold Program.planRequestForLane at h
  rw [guard_ok, guard_ok] at h
  obtain ⟨-, -, h⟩ := h
  injection h with h
  subst h
  rfl

/-- The projection covers the units at the reuse base and the tokens after
the first. -/
theorem planned_units (h : Planned c prompt plan)
    (hsuffix : plan.reuseBase < prompt.1.tokenIds.length)
    (transient : TransientRegion) (session : Option VisionPrefillSession) :
    (Program.stagedPrefill c prompt.1 plan transient session).unitsLeft c
        + (plan.summary.effectiveOutputTokens - 1)
      ≤ plan.summary.serviceWorkQuanta := by
  obtain ⟨s, lane, base, hbase, hlane⟩ := h
  obtain ⟨-, -, htokens, -⟩ := planRequestForLane_ok hlane
  obtain ⟨-, hprompt, -⟩ := planRequestBase_ok hbase
  rw [planRequestForLane_work hlane, htokens.trans hprompt]
  have hle := unitsLeft_le_projected
    (Program.stagedPrefill c prompt.1 plan transient session).uses
    (plan.rewriteCheckpointCapture.map (·.frontier))
    plan.summary.effectiveOutputTokens c.prefill_chunk_pos hsuffix
  have huses : (Program.stagedPrefill c prompt.1 plan transient
      session).uses.length
        = (plan.vision.map fun v => v.uses.length).getD 0 := by
    show ((plan.vision.map VisionPrefillPlan.uses).getD []).length = _
    cases plan.vision with
    | none => rfl
    | some v => rfl
  have hcapture : (if (plan.rewriteCheckpointCapture.map (·.frontier)).any
      (fun frontier => decide (frontier < prompt.1.tokenIds.length))
        then 1 else 0)
      = checkpointSplits plan.rewriteCheckpointCapture
          prompt.1.tokenIds.length := by
    unfold checkpointSplits
    cases plan.rewriteCheckpointCapture with
    | none => rfl
    | some spec => rfl
  rw [huses, hcapture] at hle
  exact hle

/-- Every plan projects a unit for its prefill and the tokens after the
first. -/
theorem Planned.work_ge (h : Planned c prompt plan) :
    1 + (plan.summary.effectiveOutputTokens - 1)
      ≤ plan.summary.serviceWorkQuanta := by
  obtain ⟨s, lane, base, -, hlane⟩ := h
  rw [planRequestForLane_work hlane]
  unfold projectedServiceWork
  split
  · exact le_refl _
  · refine Nat.add_le_add_right ?_ _
    rw [add_assoc]
    exact Nat.le_add_right 1 _

/-- The figures of a plan for a request that asks for output. -/
theorem Planned.figures (h : Planned c prompt plan)
    (hout : prompt.2.requestedOutputTokens ≠ 0) :
    plan.summary.admission.activeLanes = 1
      ∧ 1 ≤ plan.summary.effectiveOutputTokens
      ∧ plan.summary.effectiveOutputTokens ≤ plan.summary.serviceWorkQuanta
      ∧ plan.summary.reusablePromptTokens = plan.reuseBase
      ∧ plan.summary.promptTokens = prompt.1.tokenIds.length := by
  have hwork := h.work_ge
  obtain ⟨s, lane, base, hbase, hlane⟩ := h
  obtain ⟨-, -, htokens, heffective, hadmission, -, -, -, -, -, -, -, -, -,
    hreusable⟩ := planRequestForLane_ok hlane
  obtain ⟨hfacts, hprompt, hout', -, -, hadmission', -⟩ :=
    planRequestBase_ok hbase
  have hpos := (effectiveOutput_bounds (c := c) hfacts.fits
    (pos_of_ne_zero hout)).1
  rw [← hout', ← heffective] at hpos
  refine ⟨?_, hpos, by omega, hreusable, htokens.trans hprompt⟩
  rw [hadmission, hadmission']

end

-- ============ the prefill's steps

/-- The calls that make one prefill: a start, and an advance after each
call that did not end it. Between two of them the Program serves other
lanes, and leaves the request control of this one alone. -/
inductive PrefillSteps (c : Config) (lane : Lane) (p : PreparedPromptData)
    (plan : RequestPlan) : Nat → Program → Prop where
  | start {s s' : Program} (transient : TransientRegion) (d : PrefillDevice)
      (h : s.startPrefillLane c lane p plan transient d = .ok s') :
      PrefillSteps c lane p plan 1 s'
  | advance {n : Nat} {s t t' : Program} (d : PrefillDevice)
      (hprev : PrefillSteps c lane p plan n s)
      (hsame : t.requests lane = s.requests lane)
      (h : t.advancePrefillLane c lane d = .ok t') :
      PrefillSteps c lane p plan (n + 1) t'

/-- A lane in its prefill, with `work` units for its steps. -/
def StagedFor (c : Config) (s : Program) (lane : Lane) (work : Nat) : Prop :=
  (s.requests lane).lifecycle = .prefilling
    ∧ ∃ staged, (s.requests lane).prefill = some staged ∧ staged.Sound
      ∧ staged.cursor < staged.promptTokens ∧ staged.unitsLeft c ≤ work

section

variable {c : Config} {lane : Lane} {s s' : Program} {work : Nat}

/-- A staged lane has a unit of work. -/
theorem StagedFor.pos (h : StagedFor c s lane work) : 0 < work := by
  obtain ⟨-, staged, -, -, hcursor, hunits⟩ := h
  have hpos : 0 < staged.unitsLeft c :=
    unitsLeft_pos c.prefill_chunk_pos hcursor
  omega

/-- A staged lane, by the request control of the lane. -/
theorem StagedFor.congr {t : Program} (h : StagedFor c s lane work)
    (hsame : t.requests lane = s.requests lane) : StagedFor c t lane work := by
  unfold StagedFor
  rw [hsame]
  exact h

/-- An advance ends the prefill or takes a unit of its work. -/
theorem StagedFor.advance {d : PrefillDevice} (h : StagedFor c s lane (work + 1))
    (hstep : s.advancePrefillLane c lane d = .ok s') :
    Touches [lane] s s'
      ∧ ((s'.requests lane).lifecycle = .pending ∨ StagedFor c s' lane work)
      := by
  obtain ⟨hlife, staged, hstaged, hsound, hcursor, hunits⟩ := h
  obtain ⟨-, staged₀, hstaged₀, hleaves⟩ := advancePrefillLane_leaves hstep
  obtain rfl := some.inj (hstaged.symm.trans hstaged₀)
  obtain ⟨houtside, hcases⟩ := hleaves hsound
  refine ⟨fun l hl => houtside l (by simpa using hl), ?_⟩
  rcases hcases with hpending
    | ⟨staged', hreq, hcuts, -, hcursor', hless⟩
  · exact .inl hpending
  · refine .inr ⟨?_, staged', ?_, hcuts.sound hsound, hcursor', by omega⟩
    · rw [hreq]
      exact hlife
    · rw [hreq]

variable {plan : RequestPlan}

/-- A start ends the prefill or leaves it staged with what the plan
projects, less the step it took. -/
theorem Planned.start {prompt : TargetPrompt}
    (hplan : Planned c prompt plan) {transient : TransientRegion}
    {d : PrefillDevice}
    (h : s.startPrefillLane c lane prompt.1 plan transient d = .ok s') :
    Touches [lane] s s' ∧ ((s'.requests lane).lifecycle = .pending
      ∨ StagedFor c s' lane (plan.summary.serviceWorkQuanta
        - (plan.summary.effectiveOutputTokens - 1) - 1)) := by
  obtain ⟨-, htouch, hcases⟩ := startPrefillLane_leaves h
  refine ⟨htouch, ?_⟩
  rcases hcases with hpending
    | ⟨session, staged', hlife, hstaged, hcuts, hsuffix, hcursor, hless⟩
  · exact .inl hpending
  · have hsound : (Program.stagedPrefill c prompt.1 plan transient
        session).Sound := by
      show (Program.stagedPrompt prompt.1 plan).tokenIds.length
        = prompt.1.tokenIds.length
      unfold Program.stagedPrompt
      split
      · rfl
      · rfl
    have hunits := planned_units hplan hsuffix transient session
    exact .inr ⟨hlife, staged', hstaged, hcuts.sound hsound, hcursor, by omega⟩

/-- The steps of a prefill are within what its plan projects. -/
theorem PrefillSteps.le {prompt : TargetPrompt}
    (hplan : Planned c prompt plan) {n : Nat} {t : Program}
    (h : PrefillSteps c lane prompt.1 plan n t) :
    n ≤ plan.summary.serviceWorkQuanta - (plan.summary.effectiveOutputTokens - 1)
      ∧ ((t.requests lane).lifecycle = .pending
        ∨ StagedFor c t lane (plan.summary.serviceWorkQuanta
        - (plan.summary.effectiveOutputTokens - 1) - n)) := by
  induction h with
  | start transient d h =>
    have hwork := hplan.work_ge
    exact ⟨by omega, (hplan.start h).2⟩
  | advance d _ hsame h ih =>
    obtain ⟨hn, hcases⟩ := ih
    rcases hcases with hpending | hstaged
    · -- a prefill that ended is not advanced
      obtain ⟨hlife, -⟩ := advancePrefillLane_leaves h
      rw [hsame, hpending] at hlife
      cases hlife
    · have hstaged := hstaged.congr hsame
      have hpos := hstaged.pos
      obtain ⟨work, hwork⟩ := Nat.exists_eq_succ_of_ne_zero (ne_of_gt hpos)
      rw [hwork] at hstaged
      refine ⟨by omega, ?_⟩
      rw [show plan.summary.serviceWorkQuanta
        - (plan.summary.effectiveOutputTokens - 1) - (_ + 1) = work by
          omega]
      exact (hstaged.advance h).2

end

-- ============ the invariant

/-- A queued request asks for output, and its cached plans are its own. -/
structure RequestOk (c : Config) (r : ExecutorRequest) : Prop where
  output : r.prompt.2.requestedOutputTokens ≠ 0
  base : ∀ base, r.basePlan = some base →
    planRequestBase c r.prompt.1 r.prompt.2 = .ok base
  plans : ∀ lane plan, r.lanePlans lane = some plan → Planned c r.prompt plan

/-- A request whose output is under way: its work covers its budget. -/
def Decoding (r : ExecutorRequest) : Prop :=
  r.decodeReady = true ∧ 1 ≤ r.budgetRemaining
    ∧ r.budgetRemaining ≤ r.remainingServiceWork

/-- A request whose prompt is under way: its work covers the steps ahead
and the tokens after the first. -/
def Prefilling (c : Config) (s : Program) (lane : Lane)
    (r : ExecutorRequest) : Prop :=
  r.decodeReady = false ∧ 1 ≤ r.budgetRemaining
    ∧ r.budgetRemaining - 1 ≤ r.remainingServiceWork
    ∧ StagedFor c s lane (r.remainingServiceWork - (r.budgetRemaining - 1))

/-- What the executor keeps of a lane. -/
structure LaneOk (c : Config) (s : Executor) (lane : Lane) : Prop where
  owner : s.prefillLane = some lane → (s.slots lane).isSome = true
  admitted : ∀ r, s.slots lane = some r → r.admissionResources.activeLanes ≠ 0
  prefilling : ∀ r, s.slots lane = some r → s.prefillLane = some lane →
    Prefilling c s.program.program lane r
  decoding : ∀ r, s.slots lane = some r → s.prefillLane ≠ some lane → Decoding r

/-- What every unit keeps. -/
structure Accounted (c : Config) (s : Executor) : Prop where
  pending : ∀ r ∈ s.pending, RequestOk c r
  lanes : ∀ lane, LaneOk c s lane

section

variable {c : Config} {cfg : Admission.Config} {s s' : Executor}
  {lane : Lane} {r : ExecutorRequest}

/-- A lane reads its slot, whether it owns the prefill, and then its
request control. -/
theorem LaneOk.frame (h : LaneOk c s lane) (hslot : s'.slots lane = s.slots lane)
    (howner : s'.prefillLane = some lane ↔ s.prefillLane = some lane)
    (hprogram : s.prefillLane = some lane →
      s'.program.program.requests lane = s.program.program.requests lane) :
    LaneOk c s' lane := by
  refine ⟨fun ho => ?_, fun r hr => ?_, fun r hr ho => ?_, fun r hr ho => ?_⟩
  · rw [hslot]
    exact h.owner (howner.mp ho)
  · rw [hslot] at hr
    exact h.admitted r hr
  · rw [hslot] at hr
    rw [howner] at ho
    obtain ⟨hready, hbudget, hle, hstaged⟩ := h.prefilling r hr ho
    exact ⟨hready, hbudget, hle, hstaged.congr (hprogram ho)⟩
  · rw [hslot] at hr
    exact h.decoding r hr fun hold => ho (howner.mpr hold)

/-- An empty lane that does not own the prefill. -/
theorem LaneOk.empty (hslot : s.slots lane = none)
    (howner : s.prefillLane ≠ some lane) : LaneOk c s lane where
  owner := fun ho => absurd ho howner
  admitted := fun r hr => absurd hr (by simp [hslot])
  prefilling := fun r hr => absurd hr (by simp [hslot])
  decoding := fun r hr => absurd hr (by simp [hslot])

/-- A lane whose output is under way. -/
theorem LaneOk.of_decoding (hslot : s.slots lane = some r)
    (howner : s.prefillLane ≠ some lane)
    (hlanes : r.admissionResources.activeLanes ≠ 0) (h : Decoding r) :
    LaneOk c s lane := by
  have heq : ∀ r', s.slots lane = some r' → r' = r := fun r' hr' =>
    (some.inj (hslot.symm.trans hr')).symm
  refine ⟨fun ho => absurd ho howner, fun r' hr' => ?_,
    fun r' _ ho => absurd ho howner, fun r' hr' _ => ?_⟩
  · rw [heq r' hr']
    exact hlanes
  · rw [heq r' hr']
    exact h

/-- A decode-ready request decodes. -/
theorem LaneOk.of_ready (h : LaneOk c s lane) (hslot : s.slots lane = some r)
    (hready : r.decodeReady = true) :
    s.prefillLane ≠ some lane ∧ Decoding r := by
  have hnot : s.prefillLane ≠ some lane := by
    intro ho
    have hfalse := (h.prefilling r hslot ho).1
    rw [hready] at hfalse
    cases hfalse
  exact ⟨hnot, h.decoding r hslot hnot⟩

/-- The work of an occupied slot covers its budget and is not used up. -/
theorem LaneOk.covers (h : LaneOk c s lane) (hslot : s.slots lane = some r) :
    r.budgetRemaining ≤ r.remainingServiceWork
      ∧ 0 < r.remainingServiceWork := by
  by_cases howner : s.prefillLane = some lane
  · obtain ⟨-, hbudget, hle, hstaged⟩ := h.prefilling r hslot howner
    have hpos := hstaged.pos
    omega
  · obtain ⟨-, hbudget, hle⟩ := h.decoding r hslot howner
    omega

/-- Fewer pending requests, on the same lanes. -/
theorem Accounted.frame (h : Accounted c s)
    (hpending : ∀ r ∈ s'.pending, RequestOk c r)
    (hslots : s'.slots = s.slots) (howner : s'.prefillLane = s.prefillLane)
    (hprogram : s'.program = s.program) : Accounted c s' := by
  refine ⟨hpending, fun lane => (h.lanes lane).frame ?_ ?_ fun _ => ?_⟩
  · rw [hslots]
  · rw [howner]
  · rw [hprogram]

/-- While no prefill is staged the Program is not read. -/
theorem Accounted.idle (h : Accounted c s)
    (hpending : ∀ r ∈ s'.pending, RequestOk c r)
    (hslots : s'.slots = s.slots) (hidle : s.prefillLane = none)
    (hidle' : s'.prefillLane = none) : Accounted c s' := by
  refine ⟨hpending, fun lane => (h.lanes lane).frame ?_ ?_ fun ho => ?_⟩
  · rw [hslots]
  · rw [hidle, hidle']
  · rw [hidle] at ho
    cases ho

/-- Everything but one lane is accounted for. -/
structure AccountedBut (c : Config) (lane : Lane) (s : Executor) : Prop where
  pending : ∀ r ∈ s.pending, RequestOk c r
  others : ∀ l, l ≠ lane → LaneOk c s l

theorem Accounted.but (h : Accounted c s) (lane : Lane) : AccountedBut c lane s :=
  ⟨h.pending, fun l _ => h.lanes l⟩

theorem AccountedBut.all (h : AccountedBut c lane s) (hl : LaneOk c s lane) :
    Accounted c s := by
  refine ⟨h.pending, fun l => ?_⟩
  by_cases heq : l = lane
  · rw [heq]
    exact hl
  · exact h.others l heq

/-- The rest of the state, after a change of one lane. -/
theorem AccountedBut.frame (h : AccountedBut c lane s)
    (hpending : s'.pending = s.pending)
    (hslots : ∀ l, l ≠ lane → s'.slots l = s.slots l)
    (howner : ∀ l, l ≠ lane → (s'.prefillLane = some l ↔ s.prefillLane = some l))
    (hprogram : Touches [lane] s.program.program s'.program.program) :
    AccountedBut c lane s' := by
  refine ⟨fun r hr => h.pending r (hpending ▸ hr), fun l hl => ?_⟩
  exact (h.others l hl).frame (hslots l hl) (howner l hl)
    fun _ => hprogram l (by simpa using hl)

/-- The owner of the prefill, after a lane gave it up. -/
theorem releasePrefill_owner (s : Executor) (lane : Lane) :
    (s.releasePrefill lane).prefillLane ≠ some lane
      ∧ ∀ l, l ≠ lane → ((s.releasePrefill lane).prefillLane = some l
        ↔ s.prefillLane = some l) := by
  unfold State.releasePrefill
  split
  · next howner =>
    refine ⟨nofun, fun l hl => ⟨nofun, ?_⟩⟩
    intro h
    rw [howner] at h
    exact absurd (some.inj h).symm hl
  · next howner => exact ⟨howner, fun l _ => Iff.rfl⟩

theorem releasePrefill_fields (s : Executor) (lane : Lane) :
    (s.releasePrefill lane).pending = s.pending
      ∧ (s.releasePrefill lane).slots = s.slots
      ∧ (s.releasePrefill lane).program = s.program := by
  unfold State.releasePrefill
  split
  · exact ⟨rfl, rfl, rfl⟩
  · exact ⟨rfl, rfl, rfl⟩

/-- A lane that gave up the prefill is emptied. -/
theorem AccountedBut.remove (h : AccountedBut c lane s) {p : Target}
    (hprogram : Touches [lane] s.program.program p.program) :
    Accounted c (({ s.releasePrefill lane with program := p }
      ).removeCompletedSlot lane) := by
  obtain ⟨hpending, hslots, -⟩ := releasePrefill_fields s lane
  obtain ⟨hnot, howner⟩ := releasePrefill_owner s lane
  have hempty : LaneOk c (({ s.releasePrefill lane with program := p }
      ).removeCompletedSlot lane) lane :=
    LaneOk.empty (update_self ..) hnot
  refine AccountedBut.all (h.frame hpending (fun l hl => ?_) howner
    hprogram) hempty
  show update (s.releasePrefill lane).slots lane none l = _
  rw [update_of_ne hl, hslots]

/-- The active admission set is built. -/
theorem Accounted.active (h : Accounted c s) {t : Executor}
    (hslots : t.slots = s.slots) :
    ∃ active, t.activeAdmissionSet cfg = .ok active := by
  have hnone : ¬ (t.active cfg).any (fun r =>
      r.admissionResources.activeLanes == 0
        || r.remainingServiceWork == 0) = true := by
    intro hany
    obtain ⟨r, hr, hzero⟩ := any_eq_true.mp hany
    obtain ⟨lane, -, hslot⟩ := mem_filterMap.mp hr
    rw [hslots] at hslot
    have hlanes := (h.lanes lane).admitted r hslot
    have hwork := ((h.lanes lane).covers hslot).2
    simp only [Bool.or_eq_true, beq_iff_eq] at hzero
    omega
  unfold State.activeAdmissionSet
  rw [if_neg hnone]
  exact ⟨_, rfl⟩

end

-- ============ prefill

/-- A request between the target's prefill call and its resolution: the
work covers the step, and what is left of the prompt after it. -/
structure StepDone (c : Config) (s : Executor) (lane : Lane)
    (r : ExecutorRequest) : Prop where
  slot : s.slots lane = some r
  ready : r.decodeReady = false
  admitted : r.admissionResources.activeLanes ≠ 0
  budget : 1 ≤ r.budgetRemaining
  work : r.budgetRemaining ≤ r.remainingServiceWork
  target : (s.program.program.requests lane).lifecycle = .pending
    ∨ (s.prefillLane = some lane
      ∧ StagedFor c s.program.program lane
          (r.remainingServiceWork - (r.budgetRemaining - 1) - 1))

/-- What an output session decides on one token. -/
theorem Decided.bounds {decision : Nat → Except Exception OutputDecision}
    (h : Decided decision) {budget : Nat} {d : OutputDecision}
    (hd : decision budget = .ok d) :
    d.acceptedTokens ≤ budget
      ∧ (d.finished = false → d.acceptedTokens < budget) := by
  obtain ⟨session, tokens, limit, rfl⟩ := h
  unfold sessionDecision at hd
  obtain ⟨result, hpreview, hd⟩ := bind_ok.mp hd
  cases hd
  exact Frontend.OutputSession.preview_unfinished hpreview

/-- A charge within the work of the slot. -/
theorem consumeServiceWork_ok {s : Executor} {work : Nat}
    {r : ExecutorRequest} (hslot : s.slots lane = some r) (hpos : work ≠ 0)
    (hle : work ≤ r.remainingServiceWork) :
    consumeServiceWork s lane work = .ok (s.setSlot lane (some { r with
      remainingServiceWork := r.remainingServiceWork - work })) := by
  unfold consumeServiceWork
  rw [hslot]
  dsimp only
  rw [if_neg (by omega)]

section

variable {c : Config} {s : Executor} {lane : Lane} {r : ExecutorRequest}

/-- The step of a prefill is charged. -/
theorem StepDone.consumes (h : StepDone c s lane r) :
    consumeServiceWork s lane 1 = .ok (s.setSlot lane (some { r with
      remainingServiceWork := r.remainingServiceWork - 1 })) :=
  consumeServiceWork_ok h.slot Nat.one_ne_zero (le_trans h.budget h.work)

/-- The first token, on a lane that gave up the prefill. -/
theorem resolveRound_accounted {decision : Nat → Except Exception OutputDecision}
    (hbut : AccountedBut c lane s) (hslot : s.slots lane = some r)
    (howner : s.prefillLane ≠ some lane)
    (hadmitted : r.admissionResources.activeLanes ≠ 0)
    (hwork : r.budgetRemaining - 1 ≤ r.remainingServiceWork)
    (hdecided : Decided decision) :
    (resolveRound (targetApi c) s lane decision).Ends (Accounted c)
      fun _ _ => True := by
  unfold resolveRound
  rw [hslot]
  dsimp only
  split
  · trivial
  next d hd =>
  split
  · trivial
  next hone =>
  split
  · trivial
  next p hresolve =>
  have htouch : Touches [lane] s.program.program p.program := by
    unfold targetApi Target.call at hresolve
    dsimp only at hresolve
    split at hresolve
    · next hcall =>
      cases hresolve
      exact resolvePrefillLane_touches hcall
    · cases hresolve
  obtain ⟨-, hunfinished⟩ := hdecided.bounds hd
  split
  · -- the request is done
    have hnone : LaneOk c (({ s with program := p }
        ).removeCompletedSlot lane) lane :=
      LaneOk.empty (update_self ..) howner
    exact AccountedBut.all (hbut.frame rfl
      (fun l hl => update_of_ne hl ..) (fun _ _ => Iff.rfl) htouch)
      hnone
  · next hgoes =>
    have hlt := hunfinished (by simpa using hgoes)
    have hdecoding : LaneOk c (({ s with program := p }).setSlot lane
        (some { r with
          budgetRemaining := r.budgetRemaining - 1
          decodeReady := true })) lane := by
      refine LaneOk.of_decoding (update_self ..) howner ?_ ⟨rfl, ?_, ?_⟩
      · exact hadmitted
      · show 1 ≤ r.budgetRemaining - 1
        omega
      · exact hwork
    exact AccountedBut.all (hbut.frame rfl
      (fun l hl => update_of_ne hl ..) (fun _ _ => Iff.rfl) htouch)
      hdecoding

/-- `resolve_prefill_step`. -/
theorem resolvePrefillStep_accounted {unit : PrefillUnit TargetDevice}
    (hbut : AccountedBut c lane s) (h : StepDone c s lane r)
    (hdecided : Decided unit.decision) :
    (resolvePrefillStep (targetApi c) s lane unit).Ends (Accounted c)
      fun _ _ => True := by
  have hbudget := h.budget
  have hwork := h.work
  unfold resolvePrefillStep
  rw [h.consumes]
  show Outcome.Ends (if unit.cancelled = true then _ else _) _ _
  generalize hcharged : s.setSlot lane (some { r with
    remainingServiceWork := r.remainingServiceWork - 1 }) = t
  have hslot : t.slots lane = some { r with
      remainingServiceWork := r.remainingServiceWork - 1 } := by
    rw [← hcharged]
    exact update_self ..
  have howner : t.prefillLane = s.prefillLane := by
    rw [← hcharged]
    rfl
  have hprogram : t.program = s.program := by
    rw [← hcharged]
    rfl
  have hbut' : AccountedBut c lane t := by
    rw [← hcharged]
    exact hbut.frame rfl (fun l hl => update_of_ne hl ..)
      (fun _ _ => Iff.rfl) (.refl _ _)
  split
  · exact hbut'.remove (abortLane_touches c t.program.program lane)
  split
  · -- more of the prompt is ahead
    next hmore =>
    rcases h.target with hpending | ⟨hown, hstaged⟩
    · rw [hprogram] at hmore
      have hcomplete : (targetApi c).prefillComplete s.program lane = true :=
        beq_iff_eq.mpr hpending
      rw [hcomplete] at hmore
      cases hmore
    · refine AccountedBut.all hbut' ⟨fun _ => ?_, fun r' hr' => ?_,
        fun r' hr' _ => ?_, fun r' _ hnot => ?_⟩
      · rw [hslot]
        rfl
      · obtain rfl := some.inj (hslot.symm.trans hr')
        exact h.admitted
      · obtain rfl := some.inj (hslot.symm.trans hr')
        have hpos := hstaged.pos
        refine ⟨h.ready, hbudget, ?_, ?_⟩
        · show r.budgetRemaining - 1 ≤ r.remainingServiceWork - 1
          omega
        · show StagedFor c t.program.program lane
            (r.remainingServiceWork - 1 - (r.budgetRemaining - 1))
          rw [hprogram, show r.remainingServiceWork - 1
            - (r.budgetRemaining - 1) = r.remainingServiceWork
              - (r.budgetRemaining - 1) - 1 by omega]
          exact hstaged
      · exact absurd (howner.trans hown) hnot
  · obtain ⟨hpending, hslots, hprog⟩ := releasePrefill_fields t lane
    obtain ⟨hnot, howners⟩ := releasePrefill_owner t lane
    refine resolveRound_accounted (hbut'.frame hpending
      (fun l _ => by rw [hslots]) howners ?_)
      ((congrFun hslots lane).trans hslot) hnot h.admitted ?_ hdecided
    · rw [hprog]
      exact .refl _ _
    · show r.budgetRemaining - 1 ≤ r.remainingServiceWork - 1
      omega

/-- What an advance of the staged prefill leaves to be resolved. -/
theorem Accounted.advance (h : Accounted c s)
    (howner : s.prefillLane = some lane) {p : Target} {d : TargetDevice}
    (hadvance : (targetApi c).advancePrefillLane s.program lane d = .ok p) :
    AccountedBut c lane { s with program := p }
      ∧ ∃ r, StepDone c { s with program := p } lane r := by
  have hlane := h.lanes lane
  obtain ⟨r, hslot⟩ := isSome_iff_exists.mp (hlane.owner howner)
  obtain ⟨hready, hbudget, hle, hstaged⟩ := hlane.prefilling r hslot howner
  have hpos := hstaged.pos
  have hcall : s.program.program.advancePrefillLane c lane d.prefill
      = .ok p.program := by
    unfold targetApi Target.call at hadvance
    dsimp only at hadvance
    split at hadvance
    · next hcall =>
      cases hadvance
      exact hcall
    · cases hadvance
  obtain ⟨work, hwork⟩ := Nat.exists_eq_succ_of_ne_zero (ne_of_gt hpos)
  rw [hwork] at hstaged
  obtain ⟨htouch, hcases⟩ := hstaged.advance hcall
  refine ⟨(h.but lane).frame rfl (fun _ _ => rfl) (fun _ _ => Iff.rfl)
    htouch, r, hslot, hready, hlane.admitted r hslot, hbudget, by omega, ?_⟩
  rcases hcases with hpending | hstaged'
  · exact .inl hpending
  · refine .inr ⟨howner, ?_⟩
    rw [show r.remainingServiceWork - (r.budgetRemaining - 1) - 1 = work by
      omega]
    exact hstaged'

/-- `run_prefill_step`. -/
theorem runPrefillStep_accounted {unit : PrefillUnit TargetDevice}
    (h : Accounted c s) (hdecided : Decided unit.decision) :
    (runPrefillStep (targetApi c) s unit).Ends (Accounted c)
      fun _ _ => True := by
  unfold runPrefillStep
  split
  · trivial
  next lane howner =>
  split
  · trivial
  split
  · trivial
  next p hadvance =>
  obtain ⟨hbut, r, hdone⟩ := h.advance howner hadvance
  exact resolvePrefillStep_accounted hbut hdone hdecided

end

-- ============ decode

/-- A decided row, against the request in its slot. -/
def RowOk (row : RowResolution) (s : Executor) : Prop :=
  ∃ r, s.slots row.lane = some r ∧ r.decodeReady = true
    ∧ (row.cancelled = false → 1 ≤ row.acceptedTokens
      ∧ row.acceptedTokens ≤ r.budgetRemaining
      ∧ (row.terminal = false → row.acceptedTokens < r.budgetRemaining))

section

variable {c : Config} {cfg : Admission.Config} {s : Executor}

/-- Emptying a lane that does not own the prefill. -/
theorem Accounted.removeSlot (h : Accounted c s)
    (howner : s.prefillLane ≠ some lane) :
    Accounted c (s.removeCompletedSlot lane) := by
  have hempty : LaneOk c (s.removeCompletedSlot lane) lane :=
    LaneOk.empty (update_self ..) howner
  exact AccountedBut.all ((h.but lane).frame rfl
    (fun l hl => update_of_ne hl ..) (fun _ _ => Iff.rfl)
    (.refl _ _)) hempty

/-- A row is charged and committed. -/
theorem commitRow_accounted {row : RowResolution} (h : Accounted c s)
    (hrow : RowOk row s) :
    (commitRow row s).Ends (fun s' => Accounted c s'
      ∧ ∀ l, l ≠ row.lane → s'.slots l = s.slots l) fun _ _ => False := by
  obtain ⟨r, hslot, hready, hcommits⟩ := hrow
  obtain ⟨howner, -, -, hcovers⟩ := (h.lanes row.lane).of_ready hslot hready
  unfold commitRow
  split
  · exact ⟨h.removeSlot howner, fun l hl => update_of_ne hl ..⟩
  next hkept =>
  obtain ⟨hpos, hle, hlt⟩ := hcommits (by simpa using hkept)
  rw [hslot]
  dsimp only
  rw [consumeServiceWork_ok (r := { r with
    budgetRemaining := r.budgetRemaining - row.acceptedTokens })
    (update_self ..) (by omega) (le_trans hle hcovers)]
  show Outcome.Ends (if row.terminal = true then _ else _) _ _
  have hslots : ∀ l, l ≠ row.lane → ∀ x y : Option ExecutorRequest,
      ((s.setSlot row.lane x).setSlot row.lane y).slots l = s.slots l :=
    fun l hl x y => (update_of_ne hl ..).trans (update_of_ne hl ..)
  split
  · refine ⟨?_, fun l hl => (update_of_ne hl ..).trans (hslots l hl _ _)⟩
    have hempty : ∀ x : Executor, x.prefillLane = s.prefillLane →
        LaneOk c (x.removeCompletedSlot row.lane) row.lane := fun x hx =>
      LaneOk.empty (update_self ..) (hx ▸ howner)
    exact AccountedBut.all ((h.but row.lane).frame rfl
      (fun l hl => (update_of_ne hl ..).trans (hslots l hl _ _))
      (fun _ _ => Iff.rfl) (.refl _ _)) (hempty _ rfl)
  · next hgoes =>
    have hless := hlt (by simpa using hgoes)
    refine ⟨AccountedBut.all ((h.but row.lane).frame rfl
      (fun l hl => hslots l hl _ _) (fun _ _ => Iff.rfl) (.refl _ _)) ?_,
      fun l hl => hslots l hl _ _⟩
    refine LaneOk.of_decoding (update_self ..) howner
      ((h.lanes row.lane).admitted r hslot) ⟨hready, ?_, ?_⟩
    · show 1 ≤ r.budgetRemaining - row.acceptedTokens
      omega
    · show r.budgetRemaining - row.acceptedTokens
        ≤ r.remainingServiceWork - row.acceptedTokens
      omega

variable {rows : List RowResolution}

/-- The last loop of a decode round returns. -/
theorem commitRows_accounted
    (hnodup : (rows.map RowResolution.lane).Nodup) (h : Accounted c s)
    (hrows : ∀ row ∈ rows, RowOk row s) :
    (Outcome.forEach commitRow rows s).Ends (Accounted c)
      fun _ _ => False := by
  have hloop := Outcome.forEach_ends (P := Accounted c) (A := RowOk)
    (B := fun _ _ => True) (E := fun _ _ => False) (f := commitRow)
    RowResolution.lane hnodup ?_ s h hrows
  · exact hloop.mono (fun _ hs => hs.1) fun _ _ hE => hE
  intro row _ t ht hrow
  refine (commitRow_accounted ht hrow).mono ?_ fun _ _ hE => hE
  intro t' ht'
  obtain ⟨hacc, hslots⟩ := ht'
  refine ⟨hacc, trivial, fun other hne => ⟨?_, fun _ => trivial⟩⟩
  intro hother
  obtain ⟨r, hslot, hrest⟩ := hother
  exact ⟨r, (hslots other.lane hne).trans hslot, hrest⟩

variable {p : Target} {unit : DecodeUnit TargetDevice}

/-- The rows a round decides are rows of its membership, in order. -/
theorem decideRows_lanes :
    ∀ {membership : List (Lane × Nat)} {rows : List RowResolution},
    decideRows (targetApi c) p unit membership = .ok rows →
      rows.map RowResolution.lane = membership.map fst := by
  intro membership
  induction membership with
  | nil =>
    intro rows h
    cases h
    rfl
  | cons entry rest ih =>
    intro rows h
    have hcons : ∀ row : RowResolution, row.lane = entry.1 →
        (decideRows (targetApi c) p unit rest).map (row :: ·) = .ok rows →
        rows.map RowResolution.lane = (entry :: rest).map fst := by
      intro row hlane hmap
      obtain ⟨tail, hrest, hmap⟩ := bind_ok.mp hmap
      cases hmap
      rw [map_cons, map_cons, hlane, ih hrest]
    unfold decideRows at h
    rw [guard_ok] at h
    obtain ⟨-, h⟩ := h
    split at h
    · exact hcons _ rfl h
    split at h
    · cases h
    rw [guard_ok] at h
    exact hcons _ rfl h.2

/-- And each is a decision on the budget of its row. -/
theorem decideRows_rows (hdecided : ∀ lane, Decided (unit.decision lane)) :
    ∀ {membership : List (Lane × Nat)} {rows : List RowResolution},
    decideRows (targetApi c) p unit membership = .ok rows →
      ∀ row ∈ rows, ∃ budget, (row.lane, budget) ∈ membership
        ∧ (row.cancelled = false → 1 ≤ row.acceptedTokens
        ∧ row.acceptedTokens ≤ budget
        ∧ (row.terminal = false → row.acceptedTokens < budget)) := by
  intro membership
  induction membership with
  | nil =>
    intro rows h
    cases h
    exact fun row hrow => absurd hrow (by simp)
  | cons entry rest ih =>
    intro rows h
    have hcons : ∀ row : RowResolution, row.lane = entry.1 →
        (row.cancelled = false → 1 ≤ row.acceptedTokens
          ∧ row.acceptedTokens ≤ entry.2
          ∧ (row.terminal = false → row.acceptedTokens < entry.2)) →
        (decideRows (targetApi c) p unit rest).map (row :: ·) = .ok rows →
        ∀ row ∈ rows, ∃ budget, (row.lane, budget) ∈ entry :: rest
          ∧ (row.cancelled = false → 1 ≤ row.acceptedTokens
            ∧ row.acceptedTokens ≤ budget
            ∧ (row.terminal = false → row.acceptedTokens < budget)) := by
      intro row hlane hfacts hmap
      obtain ⟨tail, hrest, hmap⟩ := bind_ok.mp hmap
      cases hmap
      intro row' hrow'
      rcases mem_cons.mp hrow' with rfl | hrow'
      · refine ⟨entry.2, ?_, hfacts⟩
        rw [hlane]
        exact .head _
      · obtain ⟨budget, hmem, hrow⟩ := ih hrest row' hrow'
        exact ⟨budget, .tail _ hmem, hrow⟩
    unfold decideRows at h
    rw [guard_ok] at h
    obtain ⟨-, h⟩ := h
    split at h
    · exact hcons _ rfl (fun hno => by cases hno) h
    split at h
    · cases h
    next d hd =>
    rw [guard_ok] at h
    obtain ⟨hpre, h⟩ := h
    obtain ⟨hle, hlt⟩ := (hdecided entry.1).bounds hd
    refine hcons _ rfl (fun _ => ⟨?_, hle, hlt⟩) h
    show 1 ≤ d.acceptedTokens
    omega

/-- The members of a round are the decode-ready slots. -/
theorem mem_membership {budget : Nat}
    (h : (lane, budget) ∈ buildRoundMembership cfg s) :
    ∃ r, s.slots lane = some r ∧ r.decodeReady = true
      ∧ r.budgetRemaining = budget := by
  obtain ⟨l, -, hentry⟩ := mem_filterMap.mp h
  cases hslot : s.slots l with
  | none =>
    rw [hslot] at hentry
    cases hentry
  | some r =>
    rw [hslot] at hentry
    simp only [bind_some] at hentry
    split at hentry
    · next hready =>
      cases hentry
      exact ⟨r, hslot, hready, rfl⟩
    · cases hentry

theorem membership_nodup (s : Executor) :
    ((buildRoundMembership cfg s).map fst).Nodup := by
  have hsub : ∀ lanes : List Lane,
      ((lanes.filterMap fun lane => (s.slots lane).bind fun request =>
        if request.decodeReady then some (lane, request.budgetRemaining)
        else none).map fst).Sublist lanes := by
    intro lanes
    induction lanes with
    | nil => exact .slnil
    | cons lane rest ih =>
      rw [filterMap_cons]
      split
      · exact ih.cons lane
      · next entry hentry =>
        have hlane : entry.1 = lane := by
          cases hslot : s.slots lane with
          | none =>
            rw [hslot] at hentry
            cases hentry
          | some r =>
            rw [hslot] at hentry
            simp only [bind_some] at hentry
            split at hentry
            · rw [← some.inj hentry]
            · cases hentry
        rw [map_cons, hlane]
        exact ih.cons_cons lane
  exact (hsub cfg.lanes).nodup lanes_nodup

/-- The charges of a decode round are covered. -/
theorem decode_charges (hdecided : ∀ lane, Decided (unit.decision lane))
    (hrows : decideRows (targetApi c) p unit (buildRoundMembership cfg s)
      = .ok rows) :
    (rows.map RowResolution.lane).Nodup ∧ ∀ row ∈ rows, RowOk row s := by
  refine ⟨?_, fun row hrow => ?_⟩
  · rw [decideRows_lanes hrows]
    exact membership_nodup s
  · obtain ⟨budget, hmem, hfacts⟩ := decideRows_rows hdecided hrows row hrow
    obtain ⟨r, hslot, hready, rfl⟩ := mem_membership hmem
    exact ⟨r, hslot, hready, hfacts⟩

/-- A round leaves the staged prefill alone. -/
theorem Accounted.round (h : Accounted c s) {p' : Target}
    (hdecode : (targetApi c).decodeBatch s.program
      (buildRoundMembership cfg s) unit.device = .ok p)
    (hrows : decideRows (targetApi c) p unit (buildRoundMembership cfg s)
      = .ok rows)
    (hresolve : (targetApi c).resolvePendingBatch p rows = .ok p') :
    Accounted c { s with program := p' } := by
  have hdecode' : s.program.program.decodeBatch c
      (buildRoundMembership cfg s) unit.device.round = .ok p.program := by
    unfold targetApi Target.call at hdecode
    dsimp only at hdecode
    split at hdecode
    · next hcall =>
      cases hdecode
      exact hcall
    · cases hdecode
  have hresolve' : p.program.resolvePendingBatch c rows p.round
      = .ok p'.program := by
    unfold targetApi Target.call at hresolve
    dsimp only at hresolve
    split at hresolve
    · next hcall =>
      cases hresolve
      exact hcall
    · cases hresolve
  refine ⟨h.pending, fun lane => (h.lanes lane).frame rfl Iff.rfl ?_⟩
  intro howner
  have hout : lane ∉ (buildRoundMembership cfg s).map fst := by
    intro hmem
    obtain ⟨entry, hentry, rfl⟩ := mem_map.mp hmem
    obtain ⟨r, hslot, hready, -⟩ := mem_membership hentry
    exact ((h.lanes entry.1).of_ready hslot hready).1 howner
  have hout' : lane ∉ rows.map RowResolution.lane := by
    rw [decideRows_lanes hrows]
    exact hout
  exact (resolvePendingBatch_touches hresolve' lane hout').trans
    (decodeBatch_touches hdecode' lane hout)

/-- `run_decode_round`. -/
theorem runDecodeRound_accounted
    (h : Accounted c s) (hdecided : ∀ lane, Decided (unit.decision lane)) :
    (runDecodeRound (targetApi c) cfg s unit).Ends (Accounted c)
      fun _ _ => True := by
  unfold runDecodeRound
  dsimp only
  split
  · trivial
  next p hdecode =>
  split
  · trivial
  next rows hrows =>
  split
  · trivial
  next p' hresolve =>
  obtain ⟨hnodup, hcharges⟩ := decode_charges hdecided hrows
  exact (commitRows_accounted hnodup (h.round hdecode hrows hresolve)
    hcharges).mono (fun _ hs => hs) fun _ _ _ => trivial

end

-- ============ admission

section

variable {c : Config} {cfg : Admission.Config} {s : Executor}
  {r : ExecutorRequest}

theorem RequestOk.withBase {p : Target} {planned : ExecutorRequest}
    {base : RequestBasePlan} (h : RequestOk c r)
    (hbase : ensureBasePlan (targetApi c) p r = .ok (planned, base)) :
    RequestOk c planned
      ∧ planRequestBase c planned.prompt.1 planned.prompt.2 = .ok base := by
  obtain ⟨rfl, hplan⟩ := ensureBasePlan_ok hbase
  have hok : planRequestBase c r.prompt.1 r.prompt.2 = .ok base := by
    rcases hplan with hcached | hmade
    · exact h.base base hcached
    · exact hmade
  refine ⟨⟨h.output, fun base' hbase' => ?_, h.plans⟩, hok⟩
  cases hbase'
  exact hok

theorem RequestOk.replanned {placed : ExecutorRequest}
    {base : RequestBasePlan} (h : RequestOk c r)
    (hbase : planRequestBase c r.prompt.1 r.prompt.2 = .ok base)
    (hplaced : Replanned (targetApi c) s base r placed) :
    RequestOk c placed := by
  have hprompt := hplaced.prompt
  refine ⟨?_, fun base' hbase' => ?_, fun lane plan hplan => ?_⟩
  · rw [hprompt]
    exact h.output
  · rw [hprompt]
    rw [hplaced.basePlan] at hbase'
    exact h.base base' hbase'
  · rw [hprompt]
    rcases hplaced.plans lane plan hplan with hcached | hmade
    · exact h.plans lane plan hcached
    · exact ⟨s.program.program, lane, base, hbase, hmade⟩

variable {cls : BackfillClass} {epoch : Nat}

/-- An admitted request, before its start: the plan is all it has. -/
theorem Planned.admits (hplan : Planned c r.prompt plan)
    (hout : r.prompt.2.requestedOutputTokens ≠ 0) {t : Executor}
    (hslot : t.slots lane = some (r.admitted plan.summary cls epoch))
    (htarget : (t.program.program.requests lane).lifecycle = .pending
      ∨ (t.prefillLane = some lane ∧ StagedFor c t.program.program lane
        (plan.summary.serviceWorkQuanta
          - (plan.summary.effectiveOutputTokens - 1) - 1))) :
    StepDone c t lane (r.admitted plan.summary cls epoch) := by
  obtain ⟨hlanes, hbudget, hwork, -, -⟩ := hplan.figures hout
  refine ⟨hslot, rfl, ?_, hbudget, hwork, htarget⟩
  show plan.summary.admission.activeLanes ≠ 0
  omega

variable {unit : PrefillUnit TargetDevice}

/-- The target's part of an admission, from a state where the lane owns the
prefill exactly when the prompt has a suffix to compute. -/
theorem startTarget_accounted {transient : TransientRegion}
    (hplan : Planned c r.prompt plan)
    (hout : r.prompt.2.requestedOutputTokens ≠ 0)
    (hbut : AccountedBut c lane s)
    (hslot : s.slots lane = some (r.admitted plan.summary cls epoch))
    (hdecided : Decided unit.decision) :
    (startTarget (targetApi c) s r.prompt lane plan transient unit).Ends
      (Accounted c) fun _ _ => True := by
  unfold startTarget
  split
  · trivial
  next p hstart =>
  have hcall : s.program.program.startPrefillLane c lane r.prompt.1 plan
      transient unit.device.prefill = .ok p.program := by
    unfold targetApi Target.call at hstart
    dsimp only at hstart
    split at hstart
    · next hcall =>
      cases hstart
      exact hcall
    · cases hstart
  obtain ⟨htouch, hcases⟩ := hplan.start hcall
  dsimp only
  split
  · trivial
  next howns =>
  have htarget : (p.program.requests lane).lifecycle = .pending
      ∨ (s.prefillLane = some lane
        ∧ StagedFor c p.program lane (plan.summary.serviceWorkQuanta
            - (plan.summary.effectiveOutputTokens - 1) - 1)) := by
    rcases hcases with hpending | hstaged
    · exact .inl hpending
    · refine .inr ⟨?_, hstaged⟩
      have hincomplete : (targetApi c).prefillComplete p lane = false := by
        show ((p.program.requests lane).lifecycle == .pending) = false
        rw [hstaged.1]
        rfl
      rw [hincomplete] at howns
      simpa using howns
  have hdone : StepDone c { s with program := p } lane
      (r.admitted plan.summary cls epoch) :=
    hplan.admits hout hslot htarget
  have hothers : AccountedBut c lane { s with program := p } :=
    hbut.frame rfl (fun _ _ => rfl) (fun _ _ => Iff.rfl) htouch
  have hresolve := resolvePrefillStep_accounted hothers hdone hdecided
  split
  · trivial
  · next t ht =>
    rw [ht] at hresolve
    exact hresolve

/-- The `try` block of an admission. -/
theorem startAdmitted_accounted
    (h : Accounted c s) (hidle : s.prefillLane = none)
    (hplan : Planned c r.prompt plan)
    (hout : r.prompt.2.requestedOutputTokens ≠ 0)
    (hdecided : Decided unit.decision) :
    (startAdmitted (targetApi c) cfg s r lane plan cls epoch unit).Ends
      (Accounted c) fun _ _ => True := by
  unfold startAdmitted
  dsimp only
  have hslots : ∀ l, l ≠ lane → ∀ x : Option ExecutorRequest,
      update s.slots lane x l = s.slots l :=
    fun l hl x => update_of_ne hl ..
  split
  · split
    · trivial
    · refine startTarget_accounted hplan hout ((h.but lane).frame rfl
        (fun l hl => hslots l hl _) (fun l hl => ?_) (.refl _ _))
        (update_self ..) hdecided
      rw [hidle]
      exact ⟨fun heq => absurd (some.inj heq).symm hl, nofun⟩
  · exact startTarget_accounted hplan hout ((h.but lane).frame rfl
      (fun l hl => hslots l hl _) (fun _ _ => Iff.rfl) (.refl _ _))
      (update_self ..) hdecided

/-- Accounted for, with no prefill staged: admission starts here. -/
structure Idle (c : Config) (s : Executor) : Prop where
  accounted : Accounted c s
  free : s.prefillLane = none

/-- The queue may lose requests, and plans may be cached in it. -/
theorem Idle.of_books {t : Executor} (h : Idle c s)
    (hpending : ∀ q ∈ t.pending, RequestOk c q) (hslots : t.slots = s.slots)
    (howner : t.prefillLane = s.prefillLane) : Idle c t :=
  ⟨h.accounted.idle hpending hslots h.free (howner.trans h.free),
    howner.trans h.free⟩

theorem Idle.withProtection (h : Idle c s)
    (protection : Option AdmissionProtection) :
    Idle c { s with protection := protection } :=
  h.of_books h.accounted.pending rfl rfl

theorem Idle.erasePending (h : Idle c s) (id : Nat) :
    Idle c (s.erasePending id) := by
  refine h.of_books (fun q hq => ?_) rfl rfl
  exact h.accounted.pending q (mem_of_mem_filter hq)

theorem Idle.clearProtectionIfHead (h : Idle c s) (id : Nat) :
    Idle c (s.clearProtectionIfHead id) := by
  unfold State.clearProtectionIfHead
  split
  · exact h.withProtection none
  · exact h

theorem Idle.removePending (h : Idle c s) (id : Nat) :
    Idle c (s.removePending id) :=
  (h.erasePending id).clearProtectionIfHead id

theorem Idle.updatePending (h : Idle c s) (hr : RequestOk c r) :
    Idle c (s.updatePending r) := by
  refine h.of_books (fun q hq => ?_) rfl rfl
  obtain ⟨q', hq', rfl⟩ := mem_map.mp hq
  split
  · exact hr
  · exact h.accounted.pending q' hq'

theorem Idle.evict (choice : Lane) (plan : RequestPlan) :
    ∀ (lanes : List Lane) {s : Executor}, Idle c s →
      Idle c (evictUntilAdmissible (targetApi c) choice plan lanes s) := by
  intro lanes
  induction lanes with
  | nil => exact fun h => h
  | cons lane rest ih =>
    intro s h
    unfold evictUntilAdmissible
    split
    · exact h
    split
    · exact ih (h.of_books h.accounted.pending rfl rfl)
    · exact ih h

theorem Idle.payTemporal (h : Idle c s) (summary : RequestPlanSummary)
    (cls : BackfillClass) (epoch : Nat) :
    (payTemporal s summary cls epoch).Ends (Idle c) fun _ _ => True := by
  unfold Admission.payTemporal
  split
  · exact h
  split
  · trivial
  split
  · trivial
  · exact h.of_books h.accounted.pending rfl rfl

variable {seen : Observations}

/-- `admit_planned_request`. -/
theorem admitPlannedRequest_accounted {choice : LaneChoice}
    (h : Idle c s) (hr : RequestOk c r) (hdecided : Decided unit.decision) :
    (admitPlannedRequest (targetApi c) cfg s r choice cls epoch seen
      unit).Ends (Accounted c) fun _ _ => True := by
  unfold admitPlannedRequest
  split
  · exact (h.removePending r.id).accounted
  split
  · exact (h.removePending r.id).accounted
  split
  · trivial
  next plan hplan =>
  dsimp only
  have hevicted : Idle c (if choice.evictRetained = true then
      evictUntilAdmissible (targetApi c) choice.lane plan cfg.lanes s
      else s) := by
    split
    · exact Idle.evict choice.lane plan cfg.lanes h
    · exact h
  generalize (if choice.evictRetained = true then
    evictUntilAdmissible (targetApi c) choice.lane plan cfg.lanes s
    else s) = t at hevicted ⊢
  split
  · trivial
  refine ((hevicted.erasePending r.id).payTemporal _ cls epoch).andThen ?_
  intro u hu
  have hcleared := hu.clearProtectionIfHead r.id
  exact startAdmitted_accounted hcleared.accounted hcleared.free
    (hr.plans choice.lane plan hplan) hr.output hdecided

/-- The candidate loop. -/
theorem backfillFrom_accounted {p : AdmissionProtection}
    {active : List ActiveAdmissionSnapshot} {distance : Nat}
    (hdecided : Decided unit.decision) :
    ∀ {queued : List ExecutorRequest} {s : Executor}, Idle c s →
      (∀ q ∈ queued, RequestOk c q) →
      (backfillFrom (targetApi c) cfg p active distance seen unit queued
        s).Ends (Accounted c) fun _ _ => True := by
  intro queued
  induction queued with
  | nil => exact fun h _ => h.accounted
  | cons candidate rest ih =>
    intro s h hqueued
    have hrest : ∀ q ∈ rest, RequestOk c q :=
      fun q hq => hqueued q (.tail _ hq)
    unfold backfillFrom
    split
    · exact ih (h.removePending _) hrest
    split
    · exact ih (h.removePending _) hrest
    next planned base hbase =>
    obtain ⟨hplanned, hok⟩ :=
      (hqueued candidate (.head _)).withBase hbase
    have hcached := h.updatePending hplanned
    dsimp only
    split
    · exact ih (hcached.removePending _) hrest
    split
    · exact ih (hcached.removePending _) hrest
    · next placed hfind =>
      have hplaced := hplanned.replanned hok (findAdmissionLane_none hfind).1
      exact ih (hcached.updatePending hplaced) hrest
    · next placed choice hfind =>
      have hplaced := hplanned.replanned hok (findAdmissionLane_some hfind).1
      split
      · exact ih (hcached.updatePending hplaced) hrest
      · exact admitPlannedRequest_accounted
          (hcached.updatePending hplaced) hplaced hdecided

/-- The head waits: protection and backfill. -/
theorem protectHead_accounted {headId : Nat}
    {headResources : AdmissionResources} {queued : List ExecutorRequest}
    (h : Idle c s) (hqueued : ∀ q ∈ queued, RequestOk c q)
    (hdecided : Decided unit.decision) :
    (protectHead (targetApi c) cfg s headId headResources queued seen
      unit).Ends (Accounted c) fun _ _ => True := by
  unfold protectHead
  split
  · trivial
  split
  · trivial
  next active _ _ =>
  have hprotect : (ensureProtection cfg s headId headResources active).Ends
      (Idle c) fun _ _ => True := by
    unfold ensureProtection
    split
    · exact h
    dsimp only
    split
    · trivial
    · exact h.of_books h.accounted.pending rfl rfl
  refine hprotect.andThen ?_
  intro t ht
  unfold drainOrBackfill
  split
  · exact ht.accounted
  next p _ =>
  dsimp only
  generalize (if protectedHeadSafeWithoutTemporal p active cfg.capacity
    = true then { p with phase := .drain } else p) = q
  split
  · exact (ht.withProtection (some q)).accounted
  · exact backfillFrom_accounted hdecided (ht.withProtection (some q)) hqueued

/-- One pass of `try_admit_one`. -/
theorem tryAdmitOne_accounted (h : Idle c s) (hdecided : Decided unit.decision) :
    (tryAdmitOne (targetApi c) cfg s seen unit).Ends (Accounted c)
      fun _ _ => True := by
  unfold tryAdmitOne
  split
  · exact (h.withProtection none).accounted
  next head queued hpending =>
  dsimp only
  generalize hcleared : (if (s.protection.any fun p =>
    p.headRequestId != head.id) = true then { s with protection := none }
    else s) = t
  have ht : Idle c t := by
    rw [← hcleared]
    split
    · exact h.withProtection none
    · exact h
  have hall : ∀ q ∈ head :: queued, RequestOk c q := by
    rw [← hpending]
    exact h.accounted.pending
  split
  · exact (ht.removePending _).accounted
  split
  · exact (ht.removePending _).accounted
  next planned base hbase =>
  obtain ⟨hplanned, hok⟩ := (hall head (.head _)).withBase hbase
  have hcached := ht.updatePending hplanned
  split
  · exact (hcached.removePending _).accounted
  split
  · exact (hcached.removePending _).accounted
  · next placed choice hfind =>
    have hplaced := hplanned.replanned hok (findAdmissionLane_some hfind).1
    exact admitPlannedRequest_accounted (hcached.updatePending hplaced)
      hplaced hdecided
  · next placed hfind =>
    have hplaced := hplanned.replanned hok (findAdmissionLane_none hfind).1
    exact protectHead_accounted (hcached.updatePending hplaced)
      (fun q hq => hall q (.tail _ hq)) hdecided

end

-- ============ runs

section

variable {c : Config} {cfg : Admission.Config} {s s' : Executor}

/-- What a unit that returned keeps survives one that threw: `fail_all`
leaves nothing to account for. -/
theorem settle_accounted {o : Outcome Executor}
    (h : o.Ends (Accounted c) fun _ _ => True) :
    Accounted c (settle (targetApi c) cfg o) := by
  cases o with
  | ok s => exact h
  | throw e s =>
    exact ⟨fun r hr => absurd hr (by simp [settle, failAll]),
      fun lane => LaneOk.empty rfl nofun⟩

theorem cancelActiveRequests_accounted (h : Accounted c s)
    (cancelled : Lane → Bool) :
    Accounted c (cancelActiveRequests (targetApi c) cfg s cancelled) := by
  unfold cancelActiveRequests
  induction cfg.lanes generalizing s with
  | nil => exact h
  | cons lane rest ih =>
    refine ih ?_
    unfold cancelLane
    split
    · have hsame : ∀ p : Target,
          ({ s with program := p } : Executor).releasePrefill lane
            = { s.releasePrefill lane with program := p } := by
        intro p
        unfold State.releasePrefill
        split
        · rfl
        · rfl
      rw [hsame]
      exact (h.but lane).remove (abortLane_touches c s.program.program lane)
    · exact h

/-- Every unit keeps the accounting. -/
theorem step_accounted {a : ExecutorAction} (hserved : Served a)
    (hstep : step (targetApi c) cfg s a = some s') (h : Accounted c s) :
    Accounted c s' := by
  cases a with
  | submit prompt =>
    simp only [step] at hstep
    split at hstep
    · cases hstep
    cases hstep
    refine h.frame (fun r hr => ?_) rfl rfl rfl
    rcases mem_append.mp hr with hr | hr
    · exact h.pending r hr
    · obtain rfl := mem_singleton.mp hr
      exact ⟨hserved, fun _ hbase => (by cases hbase),
        fun _ _ hplan => (by cases hplan)⟩
  | expire gone =>
    simp only [step] at hstep
    split at hstep
    · cases hstep
    cases hstep
    exact h.frame (fun r hr => h.pending r (mem_of_mem_filter hr)) rfl rfl rfl
  | cancel cancelled =>
    simp only [step] at hstep
    split at hstep
    · cases hstep
    cases hstep
    exact cancelActiveRequests_accounted h cancelled
  | tryAdmit seen unit =>
    simp only [step] at hstep
    split at hstep
    · cases hstep
    next hfree =>
    cases hstep
    have hidle : s.prefillLane = none := by
      cases howner : s.prefillLane with
      | none => rfl
      | some lane =>
        rw [howner] at hfree
        exact absurd (Bool.or_true _) hfree
    exact settle_accounted (tryAdmitOne_accounted ⟨h, hidle⟩ hserved)
  | prefill unit =>
    simp only [step] at hstep
    split at hstep
    · cases hstep
    cases hstep
    exact settle_accounted (runPrefillStep_accounted h hserved)
  | decode unit =>
    simp only [step] at hstep
    split at hstep
    · cases hstep
    cases hstep
    exact settle_accounted (runDecodeRound_accounted h hserved)

/-- Every run keeps the accounting. -/
theorem run_accounted {tables : PoolId → Nat → Nat → Nat}
    {round : RoundDevice} {acts : List ExecutorAction}
    (hserved : ∀ a ∈ acts, Served a)
    (hrun : run (step (targetApi c) cfg) (Executor.init c tables round) acts
      = some s) : Accounted c s := by
  refine run_inv_along (C := fun _ a => Served a)
    (fun s a s' ha hstep hs => step_accounted ha hstep hs) acts _ s
    (along_of_mem _ fun a ha _ => hserved a ha) hrun ?_
  exact ⟨fun r hr => absurd hr (by simp [Executor.init, State.init]),
    fun lane => LaneOk.empty rfl nofun⟩

/-- No charge fails, and no slot runs out of work. `consume_service_work`
is called on a request just admitted, on the staged prefill, and on the
rows of a decode round. -/
structure WorkCovers (c : Config) (cfg : Admission.Config) (s : Executor) :
    Prop where
  covers : ∀ lane r, s.slots lane = some r →
    r.budgetRemaining ≤ r.remainingServiceWork ∧ 0 < r.remainingServiceWork
  active : ∀ t : Executor, t.slots = s.slots →
    ∃ active, t.activeAdmissionSet cfg = .ok active
  admission : ∀ q ∈ s.pending, ∀ (t u : Executor) (planned placed :
      ExecutorRequest) (base : RequestBasePlan) (choice : LaneChoice)
      (plan : RequestPlan) (cls : BackfillClass) (epoch : Nat),
    ensureBasePlan (targetApi c) t.program q = .ok (planned, base) →
    findAdmissionLane (targetApi c) cfg t planned base
      = .ok (placed, some choice) →
    placed.lanePlans choice.lane = some plan →
    u.slots choice.lane = some (placed.admitted plan.summary cls epoch) →
    ∃ u', consumeServiceWork u choice.lane 1 = .ok u'
  prefill : ∀ (lane : Lane) (d : TargetDevice) (p : Target),
    s.prefillLane = some lane →
    (targetApi c).advancePrefillLane s.program lane d = .ok p →
    ∃ t, consumeServiceWork { s with program := p } lane 1 = .ok t
  decode : ∀ (unit : DecodeUnit TargetDevice) (p p' : Target)
      (rows : List RowResolution), Served (.decode unit) →
    (targetApi c).decodeBatch s.program (buildRoundMembership cfg s)
      unit.device = .ok p →
    decideRows (targetApi c) p unit (buildRoundMembership cfg s) = .ok rows →
    (targetApi c).resolvePendingBatch p rows = .ok p' →
    ∃ t, Outcome.forEach commitRow rows { s with program := p' } = .ok t

theorem Accounted.workCovers (h : Accounted c s) : WorkCovers c cfg s where
  covers := fun lane _ hslot => (h.lanes lane).covers hslot
  active := fun _ hslots => h.active hslots
  admission := by
    intro q hq t u planned placed base choice plan cls epoch hbase hfind
      hplan hslot
    obtain ⟨hplanned, hok⟩ := (h.pending q hq).withBase hbase
    have hplaced := hplanned.replanned hok (findAdmissionLane_some hfind).1
    obtain ⟨-, hbudget, hwork, -⟩ :=
      (hplaced.plans choice.lane plan hplan).figures hplaced.output
    exact ⟨_, consumeServiceWork_ok hslot Nat.one_ne_zero
      (le_trans hbudget hwork)⟩
  prefill := by
    intro lane d p howner hadvance
    obtain ⟨-, r, hdone⟩ := h.advance howner hadvance
    exact ⟨_, hdone.consumes⟩
  decode := by
    intro unit p p' rows hserved hdecode hrows hresolve
    obtain ⟨hnodup, hcharges⟩ := decode_charges hserved hrows
    obtain ⟨t, ht, -⟩ := (commitRows_accounted hnodup
      (h.round hdecode hrows hresolve) hcharges).returns fun _ _ hE => hE
    exact ⟨t, ht⟩

/-- The projected work of a plan covers the steps of its prefill, however
they are cut; and in every run of the executor the work of a request
covers what it still has to do, so that no charge fails and the active
set can always be built. -/
theorem service_work_covers (c : Config) (cfg : Admission.Config) :
    (∀ (prompt : TargetPrompt) (base : RequestBasePlan) (t u : Program)
        (planLane lane : Lane) (plan : RequestPlan) (n : Nat),
      planRequestBase c prompt.1 prompt.2 = .ok base →
      t.planRequestForLane c planLane prompt.1 base = .ok plan →
      PrefillSteps c lane prompt.1 plan n u →
      n ≤ plan.summary.serviceWorkQuanta
        - (plan.summary.effectiveOutputTokens - 1))
    ∧ (∀ (tables : PoolId → Nat → Nat → Nat) (round : RoundDevice)
        (acts : List ExecutorAction) (s : Executor),
      (∀ a ∈ acts, Served a) →
      run (step (targetApi c) cfg) (Executor.init c tables round) acts
        = some s → WorkCovers c cfg s) := by
  refine ⟨?_, ?_⟩
  · intro prompt base t u planLane lane plan n hbase hlane hsteps
    exact (PrefillSteps.le ⟨t, planLane, base, hbase, hlane⟩ hsteps).1
  · intro tables round acts s hserved hrun
    exact (run_accounted hserved hrun).workCovers

end

/-- One text lane of one page, with chunks of two tokens. -/
def oneLane : Config where
  speculativeBackend := .none
  capacity := 8
  maxConcurrency := 1
  prefillChunk := 2
  draftWindow := 1
  dflashFullLayers := 0
  sampledDFlash2 := false
  dflashLocalCapacity := 1
  visionEnabled := false
  visionOutHidden := 1
  visionWorkspaceFits := fun _ => true
  mainPageGroups := 1
  capacity_pos := by decide
  capacity_le := by decide
  max_concurrency_pos := Nat.one_pos
  max_concurrency_le := by decide
  prefill_chunk_pos := Nat.zero_lt_two
  draft_window_mtp := nofun
  draft_window_dflash := nofun
  dflash_excludes_vision := nofun
  dflash_local_capacity_pos := Nat.one_pos
  vision_out_hidden_pos := Nat.one_pos
  main_page_groups_covers := by decide
  main_page_groups_lanes := by decide
  main_page_groups_fits := by decide

/-- Its executor. -/
def oneLaneExecutor : Admission.Config where
  maxConcurrency := 1
  capacity := ⟨1, 1, 0⟩
  frozenTransientBytes := 0
  max_concurrency_pos := Nat.one_pos
  max_concurrency_le := by decide
  capacity_lanes := rfl
  capacity_main_pos := Nat.one_pos

/-- The lane. -/
def theLane : Lane := ⟨0, firstLane.isLt⟩

/-- Three tokens with a checkpoint after the first, for an output of two. -/
def threeTokens : TargetPrompt :=
  (⟨[1, 2, 3], [0, 0, 0], [0, 1, 2, 0, 1, 2, 0, 1, 2], 0, [], [], true,
      some ⟨.turnClosure, 1⟩, 0, 0⟩,
    ⟨2, true, ⟨some 1, some 1, some 0, some 0, some 0⟩⟩)

/-- Their base plan: four units, three of them for the prompt. -/
def threeTokensBase : RequestBasePlan where
  summary := ⟨3, 0, 2, 0, 1, ⟨1, 1, 0⟩, 4⟩
  textKVPageEntitlement := 1
  backendKVPageEntitlement := 0
  visionControl := none
  visionTransientBytes := 0
  rewriteCheckpoint := some ⟨.turnClosure, 1⟩
  allowPrefixReuse := true

/-- The plan of the empty lane. -/
def threeTokensPlan : RequestPlan where
  summary := ⟨3, 0, 2, 0, 1, ⟨1, 1, 0⟩, 4⟩
  reuse := .fullReset
  reuseBase := 0
  mtpBridge := .none
  prepareMtp := false
  vision := none
  rewriteCheckpointAction := .captureNew
  rewriteCheckpointCapture := some ⟨.turnClosure, 1⟩
  textKVPageEntitlement := 1
  backendKVPageEntitlement := 0

/-- A device that does what it is asked to. -/
def steadyDevice : TargetDevice where
  prefill := ⟨fun _ => true, 0x68, fun _ => 0⟩
  round := ⟨fun _ _ => true, true,
    fun _ => ⟨1, 0, 0x68, 0x68, fun _ => 0, fun _ => 0⟩, fun _ _ => true,
    true⟩

/-- The Program that serves the lane. -/
def oneLaneProgram : Program := .init oneLane fun _ _ _ => 0

/-- After the first step, which ends at the checkpoint. -/
def oneLaneStarted : Program :=
  (oneLaneProgram.startPrefillLane oneLane theLane threeTokens.1
    threeTokensPlan .none steadyDevice.prefill).state

/-- After the second, which ends the prompt. -/
def oneLanePrefilled : Program :=
  (oneLaneStarted.advancePrefillLane oneLane theLane steadyDevice.prefill).state

/-- A session's decision on one character. -/
def oneCharacter : Nat → Except Exception OutputDecision :=
  sessionDecision (.make Frontend.asciiTokenizer ⟨[], [], false⟩ false false
    false) [0x68] .outputLimit

/-- The request is admitted and prefilled in two steps, to its first
token. -/
def threeTokensScript : List ExecutorAction :=
  [.submit threeTokens,
   .tryAdmit ⟨fun _ => false, fun _ => false, fun _ => false,
     fun _ => false⟩ ⟨steadyDevice, false, oneCharacter⟩,
   .prefill ⟨steadyDevice, false, oneCharacter⟩]

/-- The prompt takes two of its three units, and the run leaves the
request decoding. -/
theorem service_work_covers_three_tokens :
    (PrefillSteps oneLane theLane threeTokens.1 threeTokensPlan 2 oneLanePrefilled
      ∧ 2 ≤ threeTokensPlan.summary.serviceWorkQuanta
        - (threeTokensPlan.summary.effectiveOutputTokens - 1))
    ∧ ∃ s, run (step (targetApi oneLane) oneLaneExecutor)
          (Executor.init oneLane (fun _ _ _ => 0) steadyDevice.round)
          threeTokensScript = some s
        ∧ (s.slots theLane).isSome = true
        ∧ WorkCovers oneLane oneLaneExecutor s := by
  have hsteps : PrefillSteps oneLane theLane threeTokens.1 threeTokensPlan 2
      oneLanePrefilled := by
    refine .advance (s := oneLaneStarted) (t := oneLaneStarted)
      steadyDevice.prefill (.start (s := oneLaneProgram) .none
        steadyDevice.prefill ?_) rfl ?_
    · exact Outcome.eq_ok (by decide +kernel)
    · exact Outcome.eq_ok (by decide +kernel)
  refine ⟨⟨hsteps, (service_work_covers oneLane oneLaneExecutor).1 threeTokens
    threeTokensBase oneLaneProgram oneLanePrefilled theLane theLane
    threeTokensPlan 2 rfl rfl hsteps⟩, ?_⟩
  have hrun : (run (step (targetApi oneLane) oneLaneExecutor)
      (Executor.init oneLane (fun _ _ _ => 0) steadyDevice.round)
      threeTokensScript).any (fun s => (s.slots theLane).isSome)
        = true := by decide +kernel
  obtain ⟨s, hs, hslot⟩ := Option.any_eq_true _ _ |>.mp hrun
  refine ⟨s, hs, hslot, (service_work_covers oneLane oneLaneExecutor).2 _ _ _ s ?_
    hs⟩
  intro a ha
  simp only [threeTokensScript, List.mem_cons, List.not_mem_nil, or_false] at ha
  rcases ha with rfl | rfl | rfl
  · exact Nat.succ_ne_zero 1
  · exact ⟨_, _, _, rfl⟩
  · exact ⟨_, _, _, rfl⟩

end Ginfer.Qwen
