/-
How many steps a prefill takes.

A step of a staged prefill ends in one of three ways: after a whole chunk
(or at the end of the prompt), at the begin of a Vision span, or at the
checkpoint to capture. `unitsLeft` counts what is still ahead of the
cursor of each kind — the chunks of the suffix, the spans that begin
later, the checkpoint — and `unitsLeft_step` says that a step takes at
least one of them and brings none back. The plan's projection is the count
at the reuse base (`planned_units`), so it covers every way the suffix can
be cut.

The second half says which request controls a call on the Program touches:
those of its own lanes (`Touches`). A staged prefill waits through the
decode rounds of the other lanes.
-/
import Ginfer.Qwen.Proofs.Prefill

namespace Ginfer.Qwen

open Ginfer.Lib Ginfer.Admission Program Function List Prod

-- ============ the count

/-- The units ahead of `cursor`: chunks, spans that begin later, and the
checkpoint. -/
def unitsLeft (chunk promptTokens : Nat) (uses : List VisionUseSpan)
    (capture : Option Nat) (cursor : Nat) : Nat :=
  (promptTokens - cursor + (chunk - 1)) / chunk
    + uses.countP (fun use => decide (cursor < use.begin))
    + if capture.any fun frontier =>
        decide (cursor < frontier ∧ frontier < promptTokens) then 1 else 0

/-- A count over what is left of a list is smaller when one entry went. -/
theorem countP_lt_countP {α : Type} {p q : α → Bool} {xs : List α}
    (hle : ∀ x ∈ xs, p x = true → q x = true) {x : α} (hx : x ∈ xs)
    (hq : q x = true) (hp : p x = false) : xs.countP p < xs.countP q := by
  induction xs with
  | nil => exact absurd hx (by simp)
  | cons y rest ih =>
    have hrest : ∀ z ∈ rest, p z = true → q z = true :=
      fun z hz => hle z (.tail y hz)
    have hmono := countP_mono_left hrest
    rw [countP_cons, countP_cons]
    rcases mem_cons.mp hx with rfl | hx
    · rw [hq, hp, if_pos rfl, if_neg (by decide)]
      omega
    · have hlt := ih hrest hx
      have hy := hle y (.head _)
      by_cases hpy : p y = true
      · rw [if_pos hpy, if_pos (hy hpy)]
        omega
      · rw [if_neg hpy]
        split
        · omega
        · omega

/-- How a step from `cursor` to `cursor + n` may end. -/
inductive StepEnds (chunk promptTokens : Nat) (uses : List VisionUseSpan)
    (capture : Option Nat) (cursor n : Nat) : Prop where
  | whole (h : n = min chunk (promptTokens - cursor))
  | span (use : VisionUseSpan) (h : use ∈ uses) (hn : cursor + n = use.begin)
  | checkpoint (h : capture = some (cursor + n)) (hlt : cursor + n < promptTokens)

section

variable {chunk promptTokens cursor n : Nat} {uses : List VisionUseSpan}
  {capture : Option Nat}

/-- The spans ahead do not come back. -/
theorem spansLeft_le (uses : List VisionUseSpan) (cursor n : Nat) :
    uses.countP (fun use => decide (cursor + n < use.begin))
      ≤ uses.countP (fun use => decide (cursor < use.begin)) := by
  refine countP_mono_left fun use _ h => ?_
  rw [decide_eq_true_eq] at h ⊢
  omega

/-- Nor does the checkpoint. -/
theorem checkpointLeft_le (capture : Option Nat) (promptTokens cursor n : Nat) :
    (if capture.any fun frontier =>
        decide (cursor + n < frontier ∧ frontier < promptTokens)
      then 1 else 0)
      ≤ if capture.any fun frontier =>
        decide (cursor < frontier ∧ frontier < promptTokens)
        then 1 else 0 := by
  cases capture with
  | none => exact le_refl _
  | some frontier =>
    simp only [Option.any_some, decide_eq_true_eq]
    split
    · rw [if_pos (by omega)]
    · exact Nat.zero_le _

/-- Nor do the chunks. -/
theorem chunksLeft_le (chunk promptTokens cursor n : Nat) :
    (promptTokens - (cursor + n) + (chunk - 1)) / chunk
      ≤ (promptTokens - cursor + (chunk - 1)) / chunk :=
  Nat.div_le_div_right (by omega)

/-- A step takes a unit. -/
theorem unitsLeft_step (hchunk : 0 < chunk) (hn : 0 < n)
    (hle : cursor + n ≤ promptTokens)
    (h : StepEnds chunk promptTokens uses capture cursor n) :
    unitsLeft chunk promptTokens uses capture (cursor + n) + 1
      ≤ unitsLeft chunk promptTokens uses capture cursor := by
  have hspans := spansLeft_le uses cursor n
  have hcheckpoint := checkpointLeft_le capture promptTokens cursor n
  have hchunks := chunksLeft_le chunk promptTokens cursor n
  unfold unitsLeft
  cases h with
  | whole hwhole =>
    have hless : (promptTokens - (cursor + n) + (chunk - 1)) / chunk + 1
        ≤ (promptTokens - cursor + (chunk - 1)) / chunk := by
      by_cases hfull : chunk ≤ promptTokens - cursor
      · have hshift : promptTokens - cursor + (chunk - 1)
            = promptTokens - (cursor + n) + (chunk - 1) + chunk := by omega
        rw [hshift, Nat.add_div_right _ hchunk]
      · have hend : promptTokens - (cursor + n) + (chunk - 1) < chunk := by
          omega
        rw [Nat.div_eq_of_lt hend]
        exact Nat.div_pos (by omega) hchunk
    omega
  | span use huse hspan =>
    have hless := countP_lt_countP
      (p := fun use => decide (cursor + n < use.begin))
      (q := fun use => decide (cursor < use.begin))
      (fun other _ h => by
        rw [decide_eq_true_eq] at h ⊢
        omega) huse (decide_eq_true (by omega))
      (decide_eq_false (by omega))
    omega
  | checkpoint hcapture hlt =>
    subst hcapture
    have hbefore : (if (some (cursor + n)).any fun frontier =>
        decide (cursor < frontier ∧ frontier < promptTokens)
        then 1 else 0) = 1 := by
      rw [if_pos]
      simp only [Option.any_some, decide_eq_true_eq]
      omega
    have hafter : (if (some (cursor + n)).any fun frontier =>
        decide (cursor + n < frontier ∧ frontier < promptTokens)
        then 1 else 0) = 0 := by
      rw [if_neg]
      simp only [Option.any_some, decide_eq_true_eq]
      omega
    omega

/-- There is a unit ahead of a cursor inside the prompt. -/
theorem unitsLeft_pos (hchunk : 0 < chunk) (h : cursor < promptTokens) :
    0 < unitsLeft chunk promptTokens uses capture cursor := by
  have : 0 < (promptTokens - cursor + (chunk - 1)) / chunk :=
    Nat.div_pos (by omega) hchunk
  unfold unitsLeft
  omega

/-- The projection covers the units ahead of the reuse base. -/
theorem unitsLeft_le_projected (uses : List VisionUseSpan)
    (capture : Option Nat) (effective : Nat) (hchunk : 0 < chunk)
    (h : cursor < promptTokens) :
    unitsLeft chunk promptTokens uses capture cursor + (effective - 1)
      ≤ projectedServiceWork promptTokens effective cursor chunk
        (uses.length + if capture.any fun frontier =>
        decide (frontier < promptTokens) then 1 else 0) := by
  have hchunks : (promptTokens - cursor + (chunk - 1)) / chunk
      = (promptTokens - cursor - 1) / chunk + 1 := by
    rw [← Nat.add_div_right _ hchunk]
    congr 1
    omega
  have hspans : uses.countP (fun use => decide (cursor < use.begin))
      ≤ uses.length := countP_le_length
  have hcheckpoint : (if capture.any fun frontier =>
        decide (cursor < frontier ∧ frontier < promptTokens)
      then 1 else 0)
      ≤ if capture.any fun frontier => decide (frontier < promptTokens)
        then 1 else 0 := by
    cases capture with
    | none => exact le_refl _
    | some frontier =>
      simp only [Option.any_some, decide_eq_true_eq]
      split
      · rw [if_pos (by omega)]
      · exact Nat.zero_le _
  have hsuffix : ¬ promptTokens - cursor = 0 := by omega
  unfold unitsLeft projectedServiceWork
  rw [if_neg hsuffix]
  omega

end

-- ============ one step

/-- A chunk ends where it was asked to, or at the begin of a span. -/
theorem visionWindow_ends (begin : Nat) : ∀ (uses : List VisionUseSpan)
    (stop : Nat) (active : Option VisionUseSpan),
    (visionWindow begin stop active uses).2 = stop
      ∨ ∃ use ∈ uses, (visionWindow begin stop active uses).2
        = use.begin := by
  intro uses
  induction uses with
  | nil => exact fun stop active => .inl rfl
  | cons use rest ih =>
    intro stop active
    have hrest : ∀ active, (visionWindow begin stop active rest).2 = stop
        ∨ ∃ use' ∈ use :: rest,
          (visionWindow begin stop active rest).2 = use'.begin := by
      intro active
      rcases ih stop active with h | ⟨use', huse', h⟩
      · exact .inl h
      · exact .inr ⟨use', .tail use huse', h⟩
    unfold visionWindow
    split
    · exact hrest active
    split
    · exact .inl rfl
    cases active with
    | none => exact hrest (some use)
    | some first =>
      refine .inr ⟨use, .head _, ?_⟩
      show min stop use.begin = use.begin
      omega

theorem prepareChunk_ends {c : Config} {p : PreparedPromptData}
    {plan : VisionPrefillPlan} {transient : TransientRegion}
    {session session' : VisionPrefillSession} {begin nominal : Nat}
    {chunk : VisionChunk}
    (h : prepareChunk c p plan transient session begin nominal
      = .ok (chunk, session'))
    (hnominal : begin + nominal ≤ p.tokenIds.length) :
    chunk.length = nominal
      ∨ ∃ use ∈ plan.uses, begin + chunk.length = use.begin := by
  unfold prepareChunk at h
  rw [guard_ok] at h
  obtain ⟨-, h⟩ := h
  have hends := visionWindow_ends begin plan.uses
    (min (begin + nominal) p.tokenIds.length) none
  have hmin : min (begin + nominal) p.tokenIds.length = begin + nominal := by
    omega
  dsimp only at h
  rw [guard_ok] at h
  obtain ⟨hprogress, h⟩ := h
  have hlength : chunk.length = (visionWindow begin
      (min (begin + nominal) p.tokenIds.length) none plan.uses).2
        - begin := by
    split at h
    · cases h
      rfl
    · split at h
      · cases h
      · cases h
        rfl
  rcases hends with hend | ⟨use, huse, hend⟩
  · exact .inl (by omega)
  · exact .inr ⟨use, huse, by omega⟩

/-- A chunk that stops for the checkpoint ends at it. -/
theorem chunkLength_ends (cursor nominal : Nat) (capture : Option Nat) :
    chunkLength cursor nominal capture = nominal
      ∨ (capture = some (cursor + chunkLength cursor nominal capture)
        ∧ cursor + chunkLength cursor nominal capture < cursor + nominal)
      := by
  unfold chunkLength
  cases capture with
  | none => exact .inl rfl
  | some frontier =>
    dsimp only
    split
    · next hinside =>
      refine .inr ⟨congrArg some ?_, ?_⟩
      · omega
      · omega
    · exact .inl rfl

/-- What the steps of a prefill leave as it is. -/
structure SameCuts (staged staged' : Prefill) : Prop where
  tokens : staged'.promptTokens = staged.promptTokens
  length : staged'.prompt.tokenIds.length = staged.prompt.tokenIds.length
  plan : staged'.visionPlan = staged.visionPlan
  capture : staged'.rewriteCheckpointCapture = staged.rewriteCheckpointCapture

/-- The spans of a staged prefill. -/
def Prefill.uses (staged : Prefill) : List VisionUseSpan :=
  (staged.visionPlan.map VisionPrefillPlan.uses).getD []

/-- The units ahead of a staged prefill. -/
def Prefill.unitsLeft (c : Config) (staged : Prefill) : Nat :=
  Qwen.unitsLeft c.prefillChunk staged.promptTokens staged.uses
    (staged.rewriteCheckpointCapture.map (·.frontier)) staged.cursor

/-- The staged prompt is the one its figures are about. -/
def Prefill.Sound (staged : Prefill) : Prop :=
  staged.prompt.tokenIds.length = staged.promptTokens

section

variable {c : Config} {lane : Lane} {s s' : Program}
  {staged staged' : Prefill} {d : PrefillDevice}

theorem SameCuts.sound (h : SameCuts staged staged') (hs : staged.Sound) :
    staged'.Sound := by
  unfold Prefill.Sound
  rw [h.length, h.tokens]
  exact hs

/-- The chunk call ends as `StepEnds` says. -/
theorem dispatchChunk_ends {nominal : Nat} {final : Bool}
    {result : PrefillChunkResult}
    (h : s.dispatchChunk c lane staged nominal final d
      = .ok (s', staged', result)) (hs : staged.Sound)
    (hnominal : nominal
      = min c.prefillChunk (staged.promptTokens - staged.cursor))
    (hcursor : staged.cursor < staged.promptTokens) :
    s'.requests = s.requests ∧ SameCuts staged staged'
      ∧ staged'.cursor = staged.cursor
      ∧ StepEnds c.prefillChunk staged.promptTokens staged.uses
        (staged.rewriteCheckpointCapture.map (·.frontier))
        staged.cursor result.processedTokens := by
  have hchunk := c.prefill_chunk_pos
  have hinside : staged.cursor + nominal ≤ staged.promptTokens := by omega
  have hcut := chunkLength_ends staged.cursor nominal
    (staged.rewriteCheckpointCapture.map (·.frontier))
  -- the checkpoint's length, as one of the three ends
  have hlength : StepEnds c.prefillChunk staged.promptTokens staged.uses
      (staged.rewriteCheckpointCapture.map (·.frontier)) staged.cursor
      (chunkLength staged.cursor nominal
        (staged.rewriteCheckpointCapture.map (·.frontier))) := by
    rcases hcut with heq | ⟨heq, hlt⟩
    · exact .whole (heq.trans hnominal)
    · exact .checkpoint heq (by omega)
  unfold dispatchChunk at h
  split at h
  · next plan session hplan hsession =>
    split at h
    · cases h
    next s₁ result₁ session₁ hmultimodal =>
    cases h
    unfold prefillMultimodalChunk at hmultimodal
    rw [guard_ok] at hmultimodal
    obtain ⟨-, hmultimodal⟩ := hmultimodal
    dsimp only at hmultimodal
    split at hmultimodal
    · cases hmultimodal
    next chunk session₂ hprepare =>
    cases hmultimodal
    refine ⟨(runChunk_host _ _ _).2.2, ⟨rfl, rfl, rfl, rfl⟩, rfl, ?_⟩
    have hbound := (@chunkLength_bounds staged.cursor nominal
      (staged.rewriteCheckpointCapture.map (·.frontier)) (by omega)).2
    have hfits : staged.cursor + chunkLength staged.cursor nominal
        (staged.rewriteCheckpointCapture.map (·.frontier))
          ≤ staged.prompt.tokenIds.length := by
      rw [show staged.prompt.tokenIds.length = staged.promptTokens from hs]
      omega
    rcases prepareChunk_ends hprepare hfits with heq | ⟨use, huse, heq⟩
    · show StepEnds _ _ _ _ _ chunk.length
      rw [heq]
      exact hlength
    · refine .span use ?_ heq
      unfold Prefill.uses
      rw [hplan]
      exact huse
  · cases h
    exact ⟨(runChunk_host _ _ _).2.2, ⟨rfl, rfl, rfl, rfl⟩, rfl, hlength⟩

/-- The bridge before a suffix moves neither the cursor nor the cuts. -/
theorem bridgeBeforeSuffix_cuts
    (h : bridgeBeforeSuffix c s lane staged = .ok (s', staged')) :
    (∀ l, s'.requests l = s.requests l) ∧ SameCuts staged staged'
      ∧ staged'.cursor = staged.cursor := by
  have hspec := @bridgeBeforeSuffix_spec c lane s staged
    ⟨fun _ => true, 0, fun _ => 0⟩
  rw [h] at hspec
  obtain ⟨hquiet, hreq, -, hcases⟩ := hspec
  have hall : ∀ l, s'.requests l = s.requests l := by
    intro l
    by_cases hl : l = lane
    · rw [hl]
      exact hreq
    · exact (hquiet.others l hl).2
  rcases hcases with ⟨-, hstaged, -⟩ | ⟨e, next, -, -, ⟨session, hnext⟩, hstaged⟩
  · have heq : staged' = staged := hstaged
    rw [heq]
    exact ⟨hall, ⟨rfl, rfl, rfl, rfl⟩, rfl⟩
  · have heq : staged' = { next with mtpBridge := .none } := hstaged
    rw [heq, hnext]
    exact ⟨hall, ⟨rfl, rfl, rfl, rfl⟩, rfl⟩

/-- The end of a prefill leaves its lane pending and the others alone. -/
theorem finishPrefill_requests (h : finishPrefill c s lane staged d = .ok s') :
    (s'.requests lane).lifecycle = .pending
      ∧ ∀ l, l ≠ lane → s'.requests l = s.requests l := by
  unfold finishPrefill at h
  obtain ⟨_, -, h⟩ := bind_ok.mp h
  obtain ⟨_, -, h⟩ := bind_ok.mp h
  obtain ⟨_, -, h⟩ := bind_ok.mp h
  obtain ⟨_, -, h⟩ := bind_ok.mp h
  obtain ⟨_, -, h⟩ := bind_ok.mp h
  cases h
  refine ⟨?_, fun l hl => ?_⟩
  · show RequestControl.lifecycle (update s.requests lane _ lane) = _
    rw [update_self]
  · exact update_of_ne hl ..

/-- What a step leaves: a pending lane, or the prefill with a unit less
ahead of it. -/
def StepLeaves (c : Config) (lane : Lane) (staged : Prefill)
    (before after : Program) : Prop :=
  (∀ l, l ≠ lane → after.requests l = before.requests l)
    ∧ ((after.requests lane).lifecycle = .pending
      ∨ ∃ staged', after.requests lane
          = { before.requests lane with prefill := some staged' }
        ∧ SameCuts staged staged'
        ∧ staged.cursor < staged.promptTokens
        ∧ staged'.cursor < staged'.promptTokens
        ∧ staged'.unitsLeft c + 1 ≤ staged.unitsLeft c)

/-- The units depend on the cuts and the cursor. -/
theorem SameCuts.unitsLeft_eq (h : SameCuts staged staged') :
    staged'.unitsLeft c = Qwen.unitsLeft c.prefillChunk staged.promptTokens
      staged.uses (staged.rewriteCheckpointCapture.map (·.frontier))
      staged'.cursor := by
  unfold Prefill.unitsLeft Prefill.uses
  rw [h.tokens, h.plan, h.capture]

theorem SameCuts.trans {staged'' : Prefill} (h : SameCuts staged staged')
    (h' : SameCuts staged' staged'') : SameCuts staged staged'' :=
  ⟨h'.tokens.trans h.tokens, h'.length.trans h.length, h'.plan.trans h.plan,
    h'.capture.trans h.capture⟩

/-- One unit of `advance_prefill`. -/
theorem advanceUnit_leaves (h : advanceUnit c s lane staged d = .ok s')
    (hs : staged.Sound) : StepLeaves c lane staged s s' := by
  unfold advanceUnit at h
  obtain ⟨_, -, h⟩ := bind_ok.mp h
  obtain ⟨⟨s₁, staged₁⟩, hbridge, h⟩ := bind_ok.mp h
  obtain ⟨hreq₁, hcuts₁, hcursor₁⟩ := bridgeBeforeSuffix_cuts hbridge
  dsimp only at h
  split at h
  · next hcursor =>
    obtain ⟨⟨s₂, staged₂, result⟩, hchunk, h⟩ := bind_ok.mp h
    unfold advanceChunk at hchunk
    dsimp only at hchunk
    split at hchunk
    · cases hchunk
    next s₃ staged₃ result₃ hdispatch =>
    rw [guard_ok] at hchunk
    obtain ⟨hprogress, hchunk⟩ := hchunk
    obtain ⟨rfl, hrest⟩ := mk.inj (Except.ok.inj hchunk)
    obtain ⟨rfl, rfl⟩ := mk.inj hrest
    obtain ⟨hreq₃, hcuts₃, hcursor₃, hends⟩ :=
      dispatchChunk_ends hdispatch (hcuts₁.sound hs) rfl hcursor
    have hcuts : SameCuts staged { staged₃ with
        cursor := staged₃.cursor + result₃.processedTokens } :=
      hcuts₁.trans { hcuts₃ with }
    dsimp only at h
    unfold afterChunk at h
    split at h
    · -- the prefill goes on
      rw [guard_ok] at h
      obtain ⟨hgoes, h⟩ := h
      cases h
      have hreq : ∀ l, s₃.requests l = s.requests l := by
        intro l
        rw [hreq₃]
        exact hreq₁ l
      refine ⟨fun l hl => ?_, .inr ⟨_, ?_, hcuts, ?_, ?_, ?_⟩⟩
      · show update s₃.requests lane _ l = _
        rw [update_of_ne hl]
        exact hreq l
      · show update s₃.requests lane _ lane = _
        rw [update_self, ← hreq lane]
        rfl
      · rw [hcursor₁, hcuts₁.tokens] at hcursor
        exact hcursor
      · show staged₃.cursor + result₃.processedTokens < staged₃.promptTokens
        have hne : ¬ staged₃.cursor + result₃.processedTokens
          = staged₃.promptTokens := hgoes
        rw [hcursor₃, hcuts₃.tokens] at hne ⊢
        omega
      · rw [hcuts.unitsLeft_eq]
        show Qwen.unitsLeft _ _ _ _
          (staged₃.cursor + result₃.processedTokens) + 1 ≤ _
        unfold Prefill.unitsLeft
        rw [hcursor₃, hcursor₁]
        have htokens : staged₁.promptTokens = staged.promptTokens :=
          hcuts₁.tokens
        have huses : staged₁.uses = staged.uses := by
          unfold Prefill.uses
          rw [hcuts₁.plan]
        rw [hcursor₁, htokens, huses, hcuts₁.capture] at hends
        rw [hcursor₁, htokens] at hprogress
        rw [hcursor₁, htokens] at hcursor
        exact unitsLeft_step c.prefill_chunk_pos (by omega) (by omega) hends
    · -- the prompt is done
      rw [guard_ok] at h
      obtain ⟨hpending, hothers⟩ := finishPrefill_requests h.2
      refine ⟨fun l hl => ?_, .inl hpending⟩
      rw [hothers l hl]
      have hfinal : ∀ (t : Program) (stage : Prefill),
          (t.finalColumns lane stage).requests = t.requests := by
        intro t stage
        unfold finalColumns copyLastColumn
        dsimp only
        split
        · rfl
        · rfl
      rw [hfinal]
      show s₃.requests l = _
      rw [hreq₃]
      exact hreq₁ l
  · -- an exact hit samples at once
    obtain ⟨⟨s₂, staged₂⟩, hsample, h⟩ := bind_ok.mp h
    have hspec := @sampleExactHit_spec lane s₁ staged₁ d False False.elim
    rw [hsample] at hspec
    obtain ⟨-, hreq₂, -⟩ := hspec
    obtain ⟨hpending, hothers⟩ := finishPrefill_requests h
    refine ⟨fun l hl => ?_, .inl hpending⟩
    rw [hothers l hl]
    have heq : s₂.requests = s₁.requests := hreq₂
    rw [heq]
    exact hreq₁ l

end

-- ============ what a call touches

/-- The request controls of the lanes outside `lanes` are as they were. -/
def Touches (lanes : List Lane) (s s' : Program) : Prop :=
  ∀ l, l ∉ lanes → s'.requests l = s.requests l

namespace Touches

variable {lanes : List Lane} {lane : Lane} {s t u : Program}

theorem refl (lanes : List Lane) (s : Program) : Touches lanes s s :=
  fun _ _ => rfl

theorem of_requests (h : t.requests = s.requests) : Touches lanes s t :=
  fun l _ => congrFun h l

theorem trans (h : Touches lanes s t) (h' : Touches lanes t u) :
    Touches lanes s u := fun l hl => (h' l hl).trans (h l hl)

theorem setRequest (h : lane ∈ lanes) (r : RequestControl) :
    Touches lanes s (s.setRequest lane r) := by
  intro l hl
  have hne : l ≠ lane := fun heq => hl (heq ▸ h)
  exact update_of_ne hne ..

theorem clearLane (h : lane ∈ lanes) : Touches lanes s (s.clearLane lane) := by
  refine (of_requests ?_).trans (setRequest h .empty)
  rfl

end Touches

section

variable {c : Config} {lane : Lane} {s : Program} {fate : Fate}

theorem onKV_requests (o : Outcome (Pool.PagedKV PoolId (Lane × PoolId))) :
    (s.onKV o).state.requests = s.requests := by
  cases o with
  | ok w => rfl
  | throw e w => rfl

theorem deviceCall_requests (succeeds : Bool) :
    (deviceCall succeeds s).state.requests = s.requests := by
  unfold deviceCall
  split
  · rfl
  · rfl

/-- Sequencing, on the request controls. -/
theorem andThen_requests {o : Outcome Program} {f : Program → Outcome Program}
    {r : Lane → RequestControl} (ho : o.state.requests = r)
    (hf : ∀ t, (f t).state.requests = t.requests) :
    (o.andThen f).state.requests = r :=
  Outcome.andThen_keeps (P := fun t => t.requests = r) ho
    fun t ht => (hf t).trans ht

theorem reserveSequenceKV_requests (textPages backendPages : Nat) :
    (s.reserveSequenceKV c lane textPages backendPages fate).state.requests
      = s.requests := by
  unfold reserveSequenceKV
  split
  · rfl
  split
  · rfl
  · exact onKV_requests _

theorem resizeSequenceKVEntitlement_requests (textPages backendPages : Nat) :
    (s.resizeSequenceKVEntitlement lane textPages backendPages
      fate).state.requests = s.requests := by
  unfold resizeSequenceKVEntitlement
  split
  · rfl
  split
  · rfl
  · exact onKV_requests _

theorem growKV_requests (k : PoolId) (tokens : Nat) :
    (s.growKV lane k tokens fate).state.requests = s.requests := by
  unfold growKV
  split
  · exact onKV_requests _
  · rfl

theorem materializeSequenceKV_requests (mainTokens backendTokens : Nat) :
    (s.materializeSequenceKV c lane mainTokens backendTokens
      fate).state.requests = s.requests := by
  unfold materializeSequenceKV
  split
  · rfl
  split
  · rfl
  refine andThen_requests (growKV_requests _ _) fun t => ?_
  split
  · exact growKV_requests _ _
  · rfl

theorem trimSequenceKV_requests (mainTokens backendTokens : Nat) :
    (s.trimSequenceKV c lane mainTokens backendTokens).state.requests
      = s.requests := by
  unfold trimSequenceKV
  split
  · rfl
  split
  · rfl
  refine andThen_requests ?_ fun t => rfl
  unfold trimPools
  refine andThen_requests (onKV_requests _) fun t => ?_
  split
  · exact onKV_requests _
  · rfl

theorem bindSequenceKV_requests :
    (s.bindSequenceKV lane).state.requests = s.requests := by
  unfold bindSequenceKV
  split
  · rfl
  refine andThen_requests (onKV_requests _) fun t => ?_
  have hbackend : (t.bindBackendKV lane).state.requests = t.requests := by
    unfold bindBackendKV
    split
    · exact onKV_requests _
    · rfl
  split
  · next hok =>
    rw [hok] at hbackend
    exact hbackend
  · next hthrow =>
    rw [hthrow] at hbackend
    exact hbackend

/-- The reuse of a start. -/
theorem applyReuse_requests (plan : RequestPlan) :
    (applyReuse c s lane plan fate).state.requests = s.requests := by
  have htrim : ∀ t : Program,
      (trimAndResize c t lane plan fate).state.requests
        = t.requests := fun t =>
    andThen_requests (trimSequenceKV_requests _ _) fun _ =>
      resizeSequenceKVEntitlement_requests _ _
  have hrestore : (applyRestore c s lane plan fate).state.requests
      = s.requests := by
    unfold applyRestore
    dsimp only
    split
    · rfl
    split
    · rfl
    split
    · rfl
    refine andThen_requests (htrim _) fun t => ?_
    refine andThen_requests ?_ fun _ => rfl
    exact deviceCall_requests _
  unfold applyReuse
  split
  · unfold applyFullReset orderedReset
    refine andThen_requests ?_ fun t => reserveSequenceKV_requests _ _
    refine andThen_requests ?_ fun _ => rfl
    exact deviceCall_requests _
  · unfold applyAppend
    dsimp only
    split
    · rfl
    split
    · rfl
    split
    · rfl
    split
    · rfl
    exact andThen_requests (htrim _) fun _ => rfl
  · exact hrestore
  · exact hrestore

end

-- ============ the steps as calls

section

variable {c : Config} {lane : Lane} {s s' : Program} {d : PrefillDevice}

/-- A call that cleared its lanes threw. -/
theorem clearOnThrow_ok {lanes : List Lane} {o : Outcome Program}
    (h : clearOnThrow lanes o = .ok s') : o = .ok s' := by
  cases o with
  | ok t => exact h
  | throw e t => cases h

/-- A sequence that returned returned twice. -/
theorem andThen_ok {o : Outcome Program} {f : Program → Outcome Program}
    (h : o.andThen f = .ok s') : ∃ t, o = .ok t ∧ f t = .ok s' := by
  cases o with
  | ok t => exact ⟨t, rfl, h⟩
  | throw e t => cases h

/-- `advance_prefill` that returns made one step. -/
theorem advancePrefill_leaves (h : s.advancePrefill c lane d = .ok s') :
    (s.requests lane).lifecycle = .prefilling
      ∧ ∃ staged, (s.requests lane).prefill = some staged
        ∧ (staged.Sound → StepLeaves c lane staged s s') := by
  unfold advancePrefill at h
  split at h
  · next staged hlife hstaged =>
    obtain ⟨t, hcall, h⟩ := andThen_ok (clearOnThrow_ok h)
    unfold deviceCall at hcall
    split at hcall
    · cases hcall
      split at h
      · cases h
      next t' hunit =>
      cases h
      exact ⟨hlife, staged, hstaged, advanceUnit_leaves hunit⟩
    · cases hcall
  · cases h

theorem advancePrefillLane_leaves (h : s.advancePrefillLane c lane d = .ok s') :
    (s.requests lane).lifecycle = .prefilling
      ∧ ∃ staged, (s.requests lane).prefill = some staged
        ∧ (staged.Sound → StepLeaves c lane staged s s') := by
  unfold advancePrefillLane at h
  split at h
  · cases h
  · exact advancePrefill_leaves h

variable {p : PreparedPromptData} {plan : RequestPlan}
  {transient : TransientRegion}

/-- Staging a prompt changes the request control of its lane. -/
theorem stagePrompt_requests
    (h : stagePrompt c s lane p plan transient = .ok s') :
    ∃ session, s'.requests = update s.requests lane
      { lifecycle := .prefilling
        pending := .empty
        prefill := some (stagedPrefill c p plan transient
          session) } := by
  unfold stagePrompt at h
  split at h
  · cases h
  rw [guard_ok] at h
  obtain ⟨-, h⟩ := h
  split at h
  · cases h
  next session hsession =>
  cases h
  exact ⟨session, rfl⟩

/-- The `try` block of a start: the reuse and the growth leave the request
controls alone, then the prompt is staged and its first step made. -/
theorem startBody_ok (h : startBody c s lane p plan transient d = .ok s') :
    ∃ (t : Program) (session : Option VisionPrefillSession),
      t.requests = update s.requests lane
        { lifecycle := .prefilling
          pending := .empty
          prefill := some (stagedPrefill c p plan transient session) }
      ∧ t.advancePrefill c lane d = .ok s' := by
  unfold startBody at h
  obtain ⟨s₁, h₁, h⟩ := andThen_ok h
  obtain ⟨s₂, h₂, h⟩ := andThen_ok h
  obtain ⟨s₃, h₃, h⟩ := andThen_ok h
  have hreq₁ := @applyReuse_requests c lane s d.fate plan
  rw [h₁] at hreq₁
  have hreq₂ : (bindAndGrow c s₁ lane plan p.tokenIds.length
      d.fate).state.requests = s₁.requests :=
    andThen_requests (trimSequenceKV_requests _ _) fun t =>
      andThen_requests bindSequenceKV_requests fun _ =>
        materializeSequenceKV_requests _ _
  rw [h₂] at hreq₂
  have hreq₃ := @deviceCall_requests s₂ (d.fate .setup)
  rw [h₃] at hreq₃
  have hreq : s₃.requests = s.requests :=
    (hreq₃.trans hreq₂).trans hreq₁
  split at h
  · cases h
  next t hstage =>
  obtain ⟨session, hsession⟩ := stagePrompt_requests hstage
  exact ⟨t, session, by rw [hsession, hreq], h⟩

/-- What a start leaves: the lane pending, or its prefill with a unit less
than the plan staged. -/
theorem startPrefillLane_leaves
    (h : s.startPrefillLane c lane p plan transient d = .ok s') :
    p.tokenIds.length = plan.summary.promptTokens ∧ Touches [lane] s s'
      ∧ ((s'.requests lane).lifecycle = .pending
        ∨ ∃ session staged', (s'.requests lane).lifecycle = .prefilling
          ∧ (s'.requests lane).prefill = some staged'
          ∧ SameCuts (stagedPrefill c p plan transient session) staged'
          ∧ plan.reuseBase < p.tokenIds.length
          ∧ staged'.cursor < staged'.promptTokens
          ∧ staged'.unitsLeft c + 1
              ≤ (stagedPrefill c p plan transient session).unitsLeft
                  c) := by
  unfold startPrefillLane at h
  split at h
  · cases h
  next hchecks =>
  have hlength : p.tokenIds.length = plan.summary.promptTokens := by
    unfold startChecks at hchecks
    simp only [bind, Except.bind, throw, throwThe, MonadExceptOf.throw]
      at hchecks
    rw [guard_ok, guard_ok, guard_ok] at hchecks
    obtain ⟨-, -, hshape, -⟩ := hchecks
    rw [not_or, not_not] at hshape
    exact hshape.1
  obtain ⟨t, session, ht, hstep⟩ := startBody_ok (clearOnThrow_ok h)
  have hself : t.requests lane = { lifecycle := .prefilling
                                   pending := .empty
                                   prefill := some (stagedPrefill c p
                                     plan transient session) } := by
    rw [ht, update_self]
  obtain ⟨-, staged, hstaged, hleaves⟩ := advancePrefill_leaves hstep
  rw [hself] at hstaged
  cases hstaged
  have hsound : (stagedPrefill c p plan transient session).Sound := by
    show (stagedPrompt p plan).tokenIds.length = p.tokenIds.length
    unfold stagedPrompt
    split
    · rfl
    · rfl
  obtain ⟨houtside, hcases⟩ := hleaves hsound
  refine ⟨hlength, fun l hl => ?_, ?_⟩
  · have hne : l ≠ lane := fun heq => hl (heq ▸ mem_singleton_self _)
    rw [houtside l hne, ht, update_of_ne hne]
    exact update_of_ne hne ..
  · rcases hcases with hpending
      | ⟨staged', hreq, hcuts, hsuffix, hcursor, hunits⟩
    · exact .inl hpending
    · rw [hself] at hreq
      refine .inr ⟨session, staged', ?_, ?_, hcuts, hsuffix, hcursor, hunits⟩
      · rw [hreq]
      · rw [hreq]

end

-- ============ the rounds

section

variable {c : Config} {lane : Lane} {lanes : List Lane} {s s' : Program}

/-- Sequencing, on the lanes a call touches. -/
theorem Touches.andThen {o : Outcome Program}
    {f : Program → Outcome Program} (ho : Touches lanes s o.state)
    (hf : ∀ t, Touches lanes t (f t).state) :
    Touches lanes s (o.andThen f).state :=
  Outcome.andThen_keeps (P := Touches lanes s) ho
    fun t ht => ht.trans (hf t)

/-- A loop, on the lanes its iterations touch. -/
theorem Touches.forEach {α : Type} {f : α → Program → Outcome Program}
    {xs : List α} (hf : ∀ x ∈ xs, ∀ t, Touches lanes t (f x t).state) :
    Touches lanes s (Outcome.forEach f xs s).state :=
  Outcome.forEach_keeps (P := Touches lanes s)
    (fun x hx t ht => ht.trans (hf x hx t)) s (Touches.refl lanes s)

theorem setPending_touches (h : lane ∈ lanes) (q : SequenceState)
    (d : LaneContents) (pending : PendingCandidate) :
    Touches lanes s (s.setPending lane q d pending) := by
  intro l hl
  have hne : l ≠ lane := fun heq => hl (heq ▸ h)
  exact update_of_ne hne ..

variable {d : RoundDevice}

theorem commitOrdinary_touches {row : Lane × Nat} (h : row.1 ∈ lanes) :
    Touches lanes s (commitOrdinary d row s).state := by
  unfold commitOrdinary
  dsimp only
  split
  · exact .refl _ _
  · exact .refl _ _
  · exact setPending_touches h _ _ _

theorem commitMtp_touches
    {indexed : (Lane × Nat) × Nat} (h : indexed.1.1 ∈ lanes) :
    Touches lanes s (commitMtp c d indexed s).state := by
  unfold commitMtp
  dsimp only
  split
  · exact .refl _ _
  split
  · exact .refl _ _
  · exact (Touches.of_requests rfl).trans (setPending_touches h _ _ _)

theorem commitDFlash_touches {targetWindow : Nat}
    {indexed : (Lane × Nat) × Nat} (h : indexed.1.1 ∈ lanes) :
    Touches lanes s
      (commitDFlash c targetWindow d indexed s).state := by
  unfold commitDFlash
  dsimp only
  split
  · exact .refl _ _
  split
  · exact .refl _ _
  · exact (Touches.of_requests rfl).trans (setPending_touches h _ _ _)

theorem mem_lanes {rows : List (Lane × Nat)} {x : (Lane × Nat) × Nat}
    (h : x ∈ rows.zipIdx) : x.1.1 ∈ rows.map fst :=
  mem_map_of_mem (fst_mem_of_mem_zipIdx h)

/-- A decode round touches its rows. -/
theorem decodeBatch_touches {rows : List (Lane × Nat)}
    (h : s.decodeBatch c rows d = .ok s') :
    Touches (rows.map fst) s s' := by
  have hof : ∀ {o : Outcome Program}, o = .ok s' →
      Touches (rows.map fst) s o.state →
      Touches (rows.map fst) s s' := by
    intro o ho htouch
    rw [ho] at htouch
    exact htouch
  unfold decodeBatch at h
  split at h
  · unfold decodeOrdinaryBatch at h
    split at h
    · cases h
    refine hof (clearOnThrow_ok h) (Touches.andThen ?_ fun t =>
      Touches.andThen (.of_requests (deviceCall_requests _)) fun u => ?_)
    · exact Touches.forEach fun row _ t =>
        .of_requests (materializeSequenceKV_requests _ _)
    · exact Touches.forEach fun row hrow t =>
        commitOrdinary_touches (mem_map_of_mem hrow)
  · unfold decodeMtpBatch at h
    split at h
    · cases h
    refine hof (clearOnThrow_ok h) (Touches.andThen ?_ fun t =>
      Touches.andThen (.of_requests (deviceCall_requests _)) fun u => ?_)
    · exact Touches.forEach fun row _ t =>
        .of_requests (materializeSequenceKV_requests _ _)
    · exact Touches.forEach fun x hx t => commitMtp_touches (mem_lanes hx)
  · unfold decodeDFlashBatch at h
    split at h
    · cases h
    dsimp only at h
    refine hof (clearOnThrow_ok h) (Touches.andThen ?_ fun t =>
      Touches.andThen (.of_requests (deviceCall_requests _)) fun u => ?_)
    · exact (Touches.of_requests rfl).trans (Touches.forEach fun row _ t =>
        .of_requests (materializeSequenceKV_requests _ _))
    · exact Touches.forEach fun x hx t =>
        commitDFlash_touches (mem_lanes hx)

theorem settleLane_touches (h : lane ∈ lanes) (terminal : Bool) :
    Touches lanes s (s.settleLane lane terminal) := by
  intro l hl
  have hne : l ≠ lane := fun heq => hl (heq ▸ h)
  unfold settleLane
  show update _ lane _ l = _
  rw [update_of_ne hne]
  split
  · rfl
  · rfl

theorem resolveNonSpeculativePending_touches (h : lane ∈ lanes)
    (acceptedTokens : Nat) (terminal : Bool) :
    Touches lanes s (resolveNonSpeculativePending c s lane
      acceptedTokens terminal).state := by
  unfold resolveNonSpeculativePending
  dsimp only
  split
  · exact .refl _ _
  split
  · exact .refl _ _
  generalize (ite ((s.requests lane).pending.kind = .begin) _ _
    : SequenceState) = q
  split
  · exact .of_requests rfl
  refine Touches.andThen ?_ fun t => ?_
  · exact (Touches.of_requests rfl).trans
      (.of_requests (trimSequenceKV_requests _ _))
  · exact (Touches.of_requests rfl).trans (settleLane_touches h _)

theorem resolvePrefillLane_touches {terminal : Bool}
    (h : s.resolvePrefillLane c lane terminal = .ok s') :
    Touches [lane] s s' := by
  unfold resolvePrefillLane at h
  split at h
  · cases h
  split at h
  · cases h
  have htouch := @resolveNonSpeculativePending_touches c lane [lane] s
    (mem_singleton_self lane) 1 terminal
  rw [h] at htouch
  exact htouch

theorem resolveOrdinaryRow_touches {row : RowResolution} (h : row.lane ∈ lanes) :
    Touches lanes s (resolveOrdinaryRow c row s).state := by
  unfold resolveOrdinaryRow
  split
  · exact .refl _ _
  split
  · exact Touches.clearLane h
  · exact resolveNonSpeculativePending_touches h _ _

/-- The device part of a speculative resolution touches no request. -/
theorem foldBatch_requests {rows : List RowResolution} :
    (foldBatch c s rows d).state.requests = s.requests := by
  have hfold : ∀ (f : Program → RowResolution × Nat → Program),
      (∀ t x, (f t x).requests = t.requests) →
      ∀ (xs : List (RowResolution × Nat)) (t : Program),
        (xs.foldl f t).requests = t.requests := by
    intro f hf xs
    induction xs with
    | nil => exact fun t => rfl
    | cons x rest ih => exact fun t => (ih (f t x)).trans (hf t x)
  have hrow : ∀ t x, (foldRow t x).requests = t.requests := by
    intro t x
    unfold foldRow
    dsimp only
    split
    · rfl
    · rfl
  have happend : ∀ t : Program,
      (appendFinished c t rows d.resolveFate).state.requests
        = t.requests := by
    intro t
    unfold appendFinished
    dsimp only
    split
    · rfl
    split
    · rfl
    refine Outcome.forEach_keeps (P := fun u : Program =>
      u.requests = t.requests) (fun row _ u hu => ?_) _ rfl
    unfold appendRow
    dsimp only
    split
    · exact hu
    split
    · exact hu
    exact (andThen_requests (materializeSequenceKV_requests _ _)
      fun _ => rfl).trans hu
  unfold foldBatch
  dsimp only
  refine andThen_requests ((happend _).trans ?_)
    fun _ => deviceCall_requests _
  split
  · exact (hfold correctRow (fun _ _ => rfl) _ _).trans (hfold foldRow hrow _ _)
  · exact hfold foldRow hrow _ _

theorem resolveRow_touches {indexed : RowResolution × Nat}
    (h : indexed.1.lane ∈ lanes) :
    Touches lanes s (resolveRow c indexed s).state := by
  unfold resolveRow
  dsimp only
  split
  · exact Touches.clearLane h
  split
  · exact .refl _ _
  refine Touches.andThen ?_ fun t => settleLane_touches h _
  exact (Touches.of_requests rfl).trans
    (.of_requests (trimSequenceKV_requests _ _))

/-- The resolution of a round touches its rows. -/
theorem resolvePendingBatch_touches {rows : List RowResolution}
    (h : s.resolvePendingBatch c rows d = .ok s') :
    Touches (rows.map RowResolution.lane) s s' := by
  unfold resolvePendingBatch at h
  split at h
  · cases h
  split at h
  · have htouch : Touches (rows.map RowResolution.lane) s
        (Outcome.forEach (resolveOrdinaryRow c) rows s).state :=
      Touches.forEach fun row hrow t =>
        resolveOrdinaryRow_touches (mem_map_of_mem hrow)
    rw [h] at htouch
    exact htouch
  · unfold resolveSpeculative at h
    split at h
    · cases h
    dsimp only at h
    obtain ⟨t, hfold, hrows⟩ := andThen_ok h
    have hfirst := @foldBatch_requests c s d rows
    rw [clearOnThrow_ok hfold] at hfirst
    have htouch : Touches (rows.map RowResolution.lane) t
        (Outcome.forEach (resolveRow c) rows.zipIdx t).state :=
      Touches.forEach fun x hx u => resolveRow_touches
        (mem_map_of_mem (fst_mem_of_mem_zipIdx hx))
    rw [clearOnThrow_ok hrows] at htouch
    exact (Touches.of_requests hfirst).trans htouch

/-- Aborting a lane touches it. -/
theorem abortLane_touches (c : Config) (s : Program) (lane : Lane) :
    Touches [lane] s (s.abortLane c lane) := by
  unfold abortLane
  split
  · exact .refl _ _
  · exact Touches.clearLane (mem_singleton_self lane)

end

end Ginfer.Qwen
