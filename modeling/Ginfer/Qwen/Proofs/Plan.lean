/-
What a plan promises.

`planRequestBase` and `planRequestForLane` are long chains of checks; the
proofs below turn a returned plan into the facts its checks established —
about the prompt (`PromptFacts`) and about the figures (`planRequestBase_ok`,
`planRequestForLane_ok`).
-/
import Ginfer.Pool.Proofs.Effects
import Ginfer.Qwen.Resolve

namespace Ginfer.Qwen

open Ginfer.Lib Ginfer.Pool Ginfer.Admission

-- ============ the prompt

/-- What `plan_request_base` checked of a prompt. -/
structure PromptFacts (c : Config) (p : PreparedPromptData) : Prop where
  nonempty : 0 < p.tokenIds.length
  fits : p.tokenIds.length ≤ c.capacity
  types : p.tokenTypes.length = p.tokenIds.length
  positions : p.positions.length = 3 * p.tokenIds.length
  payloads : p.mediaPayloads.length = p.visionItems.length
  payload_shape : ∀ pair ∈ p.mediaPayloads.zip p.visionItems,
    pair.1 = some (pair.2.patchCount * preparedVisionPatchFeatures)
  vision : p.hasMedia = true → c.visionEnabled = true
  checkpoint : ∀ spec, p.rewriteCheckpoint = some spec →
    0 < spec.frontier ∧ spec.frontier ≤ p.tokenIds.length

variable {c : Config} {p : PreparedPromptData}
  {options : ResolvedExecutionOptions} {base : RequestBasePlan}

theorem checkRewriteCheckpoint_ok (h : checkRewriteCheckpoint p = .ok ())
    {spec : RewriteCheckpointSpec} (hspec : p.rewriteCheckpoint = some spec) :
    0 < spec.frontier ∧ spec.frontier ≤ p.tokenIds.length := by
  unfold checkRewriteCheckpoint at h
  rw [guard_ok, hspec] at h
  have hcheck := h.1
  simp only [Option.any_some, Bool.or_eq_true, beq_iff_eq,
    decide_eq_true_eq, not_or] at hcheck
  omega

theorem checkPrompt_ok (h : checkPrompt c p options = .ok ())
    (hcheckpoint : checkRewriteCheckpoint p = .ok ()) : PromptFacts c p := by
  unfold checkPrompt at h
  simp only [bind, Except.bind, throw, throwThe, MonadExceptOf.throw] at h
  rw [guard_ok, guard_ok, guard_ok, guard_ok, guard_ok, guard_ok, guard_ok] at h
  obtain ⟨hempty, hfits, -, hshape, hmedia, hpayload, hvision, -⟩ := h
  rw [not_or, not_not, not_not] at hshape hmedia
  refine ⟨?_, by omega, hshape.1, hshape.2, hmedia.2, ?_, ?_, ?_⟩
  · rw [List.isEmpty_iff] at hempty
    exact List.length_pos_of_ne_nil hempty
  · intro pair hpair
    by_contra hne
    refine hpayload (List.any_eq_true.mpr ⟨pair, hpair, ?_⟩)
    simpa using hne
  · intro hm
    by_contra hoff
    exact hvision ⟨hm, by simpa using hoff⟩
  · exact fun spec hspec => checkRewriteCheckpoint_ok hcheckpoint hspec

-- ============ the base plan

/-- A returned base plan: the checks passed, and its figures. -/
theorem planRequestBase_ok (h : planRequestBase c p options = .ok base) :
    PromptFacts c p ∧ base.summary.promptTokens = p.tokenIds.length
      ∧ base.summary.effectiveOutputTokens
        = effectiveOutput c p.tokenIds.length options.requestedOutputTokens
      ∧ base.summary.transientBytes = 0
      ∧ base.summary.transientAlignment = 1
      ∧ base.summary.admission = ⟨1, base.textKVPageEntitlement,
        base.backendKVPageEntitlement⟩
      ∧ 0 < base.summary.serviceWorkQuanta
      ∧ base.textKVPageEntitlement
        = requestPages (reservedContextTokens p.tokenIds.length
            base.summary.effectiveOutputTokens)
      ∧ base.backendKVPageEntitlement
        = backendEntitlement c (reservedContextTokens p.tokenIds.length
            base.summary.effectiveOutputTokens)
      ∧ planVision c p = .ok (base.visionControl, base.visionTransientBytes)
      ∧ base.rewriteCheckpoint = p.rewriteCheckpoint
      ∧ base.allowPrefixReuse = options.allowPrefixReuse := by
  unfold planRequestBase at h
  obtain ⟨⟨⟩, hprompt, h⟩ := bind_ok.mp h
  obtain ⟨⟨control, bytes⟩, hvision, h⟩ := bind_ok.mp h
  obtain ⟨⟨⟩, hcheckpoint, h⟩ := bind_ok.mp h
  injection h with h
  subst h
  refine ⟨checkPrompt_ok hprompt hcheckpoint, rfl, rfl, rfl, rfl, rfl, ?_,
    rfl, rfl, hvision, rfl, rfl⟩
  refine Nat.add_pos_left ?_ _
  split
  · exact Nat.one_pos
  · exact Nat.add_pos_left (Nat.add_pos_left Nat.one_pos _) _

/-- The output a prompt inside the capacity is granted. -/
theorem effectiveOutput_bounds {prompt requested : Nat}
    (hfits : prompt ≤ c.capacity) (hpos : 0 < requested) :
    1 ≤ effectiveOutput c prompt requested
      ∧ reservedContextTokens prompt (effectiveOutput c prompt requested)
        ≤ c.capacity := by
  unfold effectiveOutput reservedContextTokens
  omega

-- ============ the reuse

-- ============ the lane plan

section

variable {s : Program} {lane : Lane} {plan : RequestPlan}

/-- The reuse a lane plan is built on. -/
def Program.reuse (c : Config) (s : Program) (lane : Lane)
    (p : PreparedPromptData) (base : RequestBasePlan) : ReusePath × Nat :=
  selectReuse c (s.sequences lane) (s.textKV lane).isSome p base.allowPrefixReuse

/-- A returned lane plan. -/
theorem planRequestForLane_ok
    (h : s.planRequestForLane c lane p base = .ok plan) :
    lane.val < c.maxConcurrency ∧ (s.requests lane).lifecycle.busy = false
      ∧ plan.summary.promptTokens = base.summary.promptTokens
      ∧ plan.summary.effectiveOutputTokens = base.summary.effectiveOutputTokens
      ∧ plan.summary.admission = base.summary.admission
      ∧ (plan.reuse, plan.reuseBase) = s.reuse c lane p base
      ∧ plan.mtpBridge = selectMtpBridge c (s.reuse c lane p base)
        base.summary.promptTokens
      ∧ plan.prepareMtp = decide (c.speculativeBackend = .mtp)
      ∧ plan.vision = planVisionUses base
        (decide (c.speculativeBackend = .mtp)) plan.reuseBase
      ∧ (plan.rewriteCheckpointAction, plan.rewriteCheckpointCapture)
        = selectCheckpointAction (s.sequences lane) p
            base.rewriteCheckpoint (s.reuse c lane p base)
      ∧ plan.textKVPageEntitlement = base.textKVPageEntitlement
      ∧ plan.backendKVPageEntitlement = base.backendKVPageEntitlement
      ∧ plan.summary.transientBytes
        = (if plan.vision.isSome then base.visionTransientBytes
           else base.summary.transientBytes)
      ∧ plan.summary.transientAlignment
        = (if plan.vision.isSome then 256
           else base.summary.transientAlignment)
      ∧ plan.summary.reusablePromptTokens = plan.reuseBase := by
  unfold Program.planRequestForLane at h
  rw [guard_ok, guard_ok] at h
  obtain ⟨hlane, hbusy, h⟩ := h
  injection h with h
  subst h
  exact ⟨by omega, by simpa using hbusy, rfl, rfl, rfl, rfl, rfl, rfl, rfl,
    rfl, rfl, rfl, rfl, rfl, rfl⟩

end

end Ginfer.Qwen
