/-
Stochastic acceptance preserves the target's distribution.

The uniforms of a row are independent and uniform on [0, 1), one for each
logical position and purpose. A round's licensed tokens are then the
tokens of a rejection chain (Lib/Rejection.lean): a column proposes a
draft, keeps it or corrects it, and the column after the last draft adds
the bonus. What a column owes the target is shown for each kind of
proposal:

- `oneHot_faithful` — drafts taken as certain
  (`speculative_accept_greedy_drafts`);
- `weighed_faithful` — drafts weighed by a selector's list
  (`dflash2_accept`), drawn from it or copied from the context.

`acceptance_law` is the law of a round's licensed tokens, against a
sampler that draws a token, counts it, and draws the next.
-/
import Ginfer.Ops.Proofs.Picks
import Ginfer.Ops.Proofs.SpeculativeRound

namespace Ginfer.Ops

open Ginfer.Lib MeasureTheory RejectionSampler List

-- ============ penalties

/-- The counts after drawing some tokens one by one. -/
theorem countToken_foldl (c : SamplingConfig ℝ) (v : Token) :
    ∀ (drawn : List Token) (counts : Token → Nat),
      drawn.foldl (countToken c) counts v =
        if c.tokenCounts then counts v + drawn.count v else counts v := by
  intro drawn
  induction drawn with
  | nil => intro counts; simp
  | cons t rest ih =>
    intro counts
    rw [foldl_cons, ih, count_cons]
    unfold countToken
    cases c.tokenCounts with
    | false => rfl
    | true =>
      simp only [if_true, Function.update_apply]
      by_cases htv : t = v
      · subst htv
        simp
        omega
      · simp [htv, Ne.symm htv]

/-- The overlay of a column is what a sampler that counts each token it
draws would see. -/
theorem adjustedLogit_overlay (raw : ℝ) (v : Token)
    (c : SamplingConfig ℝ) (counts : Token → Nat) (overlay : List Token) :
    samplingAdjustedLogit raw v c counts overlay =
      samplingAdjustedLogit raw v c (overlay.foldl (countToken c) counts)
        [] := by
  unfold samplingAdjustedLogit
  by_cases hnone : c.presencePenalty = 0 ∧ c.frequencyPenalty = 0
  · rw [if_pos hnone, if_pos hnone]
  · have hcounted : c.tokenCounts = true := by
      cases h : c.tokenCounts with
      | false => exact absurd (c.counted h) hnone
      | true => rfl
    rw [if_neg hnone, if_neg hnone]
    simp only [hcounted, countToken_foldl, if_true, count_nil, add_zero]

-- ============ one column

variable {support : List Token → List (Token × ℝ)}

/-- A column that takes its draft as certain. -/
noncomputable def oneHotSampler (support : List Token → List (Token × ℝ))
    (drafts : Nat → Token) : RejectionSampler Token where
  draft w _ := drafts w.length
  accept w d := {u | u < listedProbability (support w) d}
  correct w d := samplingPickFromSupport (support w) d
  bonus w := samplingPickFromSupport (support w) (-1)

/-- A column that weighs its draft by a selector's list. -/
noncomputable def weighedSampler (support selector : List Token → List (Token × ℝ))
    (draft : List Token → ℝ → Token) : RejectionSampler Token where
  draft := draft
  accept w d := {u | u * listedProbability (selector w) d <
    listedProbability (support w) d}
  correct w _ := pickResidual (support w) (selector w)
  bonus w := samplingPickFromSupport (support w) (-1)

theorem oneHot_faithful (hsupport : ∀ w, Distribution (support w))
    (drafts : Nat → Token) :
    (oneHotSampler support drafts).Faithful
      (fun w => listedProbability (support w))
      (fun w => {drafts w.length}) where
  measurable_draft w x := MeasurableSet.const (drafts w.length = x)
  measurable_accept w x := measurableSet_Iio
  measurable_correct w d x := measurable_pickFromSupport _ _ _
  measurable_bonus w x := measurable_pickFromSupport _ _ _
  draft_mem w u := Finset.mem_singleton_self _
  bonus w x := (hsupport w).pick x
  column w x := by
    have hl := hsupport w
    have haccept : ∀ d, unitUniform.real
        ((oneHotSampler support drafts).accept w d) =
        listedProbability (support w) d := by
      intro d
      show unitUniform.real {u | u < _} = _
      rw [unitUniform_lt (hl.listed_nonneg d), min_eq_left (hl.listed_le_one d)]
    have hdraft : ∀ d, unitUniform.real
        {u | (oneHotSampler support drafts).draft w u = d} =
        if d = drafts w.length then 1 else 0 := by
      intro d
      show unitUniform.real {_u | drafts w.length = d} = _
      by_cases h : d = drafts w.length
      · rw [if_pos h]
        simp [h]
      · rw [if_neg h]
        simp [Ne.symm h]
    have hmeasurable : MeasurableSet
        ((oneHotSampler support drafts).accept w (drafts w.length)) :=
      measurableSet_Iio
    rw [Finset.sum_singleton, kept, hdraft, haccept, hdraft, if_pos rfl,
      one_mul, probReal_compl_eq_one_sub hmeasurable, haccept]
    show _ + (1 - listedProbability (support w) _) * unitUniform.real
      {u | samplingPickFromSupport (support w) (drafts w.length) u = x} = _
    rw [hl.pickWithout]
    by_cases h : x = drafts w.length
    · rw [if_pos h, if_pos h, one_mul, add_zero]
    · rw [if_neg h, if_neg h, zero_mul, zero_add]

/-- The weighed test keeps a draft as often as both sides allow. -/
theorem weighed_kept {p q : ℝ} (hp : 0 ≤ p) (hq : 0 ≤ q) :
    q * unitUniform.real {u | u * q < p} = min p q := by
  rcases eq_or_lt_of_le hq with hzero | hpos
  · rw [← hzero, zero_mul, min_eq_right hp]
  · have hset : {u | u * q < p} = {u | u < p / q} := by
      ext u
      exact (lt_div_iff₀ hpos).symm
    rw [hset, unitUniform_lt (div_nonneg hp hq),
      mul_min_of_nonneg _ _ hq, mul_one, mul_div_cancel₀ _ (ne_of_gt hpos)]

theorem weighed_faithful {selector : List Token → List (Token × ℝ)}
    (hsupport : ∀ w, Distribution (support w))
    (hselector : ∀ w, Listing (selector w))
    {draft : List Token → ℝ → Token} {drafts : List Token → Finset Token}
    (hmeasurable : ∀ w x, MeasurableSet {u | draft w u = x})
    (hmem : ∀ w u, draft w u ∈ drafts w)
    (hlisted : ∀ w, ∀ c ∈ selector w, c.1 ∈ drafts w)
    (hlaw : ∀ w x, unitUniform.real {u | draft w u = x} =
      listedProbability (selector w) x) :
    (weighedSampler support selector draft).Faithful
      (fun w => listedProbability (support w)) drafts where
  measurable_draft := hmeasurable
  measurable_accept w x :=
    measurable_mul_const _ measurableSet_Iio
  measurable_correct w d x := measurable_pickResidual _ _ _
  measurable_bonus w x := measurable_pickFromSupport _ _ _
  draft_mem := hmem
  bonus w x := (hsupport w).pick x
  column w x := by
    have hl := hsupport w
    have hs := hselector w
    have hq : ∀ d, 0 ≤ listedProbability (selector w) d := by
      intro d
      rw [hs.once]
      exact scattered_nonneg hs.nonneg d
    have hkept : ∀ d, listedProbability (selector w) d * unitUniform.real
        ((weighedSampler support selector draft).accept w d) =
        min (listedProbability (support w) d)
          (listedProbability (selector w) d) :=
      fun d => weighed_kept (hl.listed_nonneg d) (hq d)
    have hterm : ∀ d ∈ drafts w,
        unitUniform.real
          {u | (weighedSampler support selector draft).draft w u = d} *
        unitUniform.real ((weighedSampler support selector draft).accept w d)ᶜ *
        unitUniform.real
          {u | (weighedSampler support selector draft).correct w d u = x} =
        (listedProbability (selector w) d -
          min (listedProbability (support w) d)
            (listedProbability (selector w) d)) *
        unitUniform.real
          {u | pickResidual (support w) (selector w) u = x} := by
      intro d _
      have hmeasurable : MeasurableSet
          ((weighedSampler support selector draft).accept w d) :=
        measurable_mul_const _ measurableSet_Iio
      rw [probReal_compl_eq_one_sub hmeasurable, ← hkept]
      show unitUniform.real {u | draft w u = d} * _ * _ = _
      rw [hlaw, mul_sub, mul_one]
      rfl
    rw [Finset.sum_congr rfl hterm, ← Finset.sum_mul,
      rejection_mass hl hs (hlisted w), pickResidual_law hl hs, kept]
    show unitUniform.real {u | draft w u = x} * _ + _ = _
    rw [hlaw, hkept]
    rcases le_total (listedProbability (support w) x)
      (listedProbability (selector w) x) with h | h
    · rw [min_eq_left h, max_eq_right (by linarith), add_zero]
    · rw [min_eq_right h, max_eq_left (by linarith)]
      ring

-- ============ the row as a chain

/-- The uniforms of a row, by column and use. -/
def drawKey (length : Int) : ℕ × Draw → Int × SamplePurpose
  | (c, .select) => (length + 1 + c, .dflashSelect)
  | (c, .accept) => (length + c + 1, .speculativeAccept)
  | (c, .correct) => (length + c + 1, .speculativeCorrection)
  | (c, .bonus) => (length + c + 1, .speculativeBonus)

/-- No two draws of a round share a key. -/
theorem drawKey_injective (length : Int) :
    Function.Injective (drawKey length) := by
  rintro ⟨c, use⟩ ⟨c', use'⟩ h
  cases use <;> cases use' <;>
    simp only [drawKey, Prod.mk.injEq, reduceCtorEq, and_false, and_true]
      at h ⊢ <;> omega

/-- The loop over the columns of a row, when its tests and picks are
those of a sampler. -/
theorem acceptColumns_tokens (S : RejectionSampler Token) (ω : Draws)
    {drafts : Nat → Token} {test : Nat → Bool}
    {correction bonus : Nat → Token} {n : Nat}
    (hdraft : ∀ i, i < n → drafts i =
      S.draft ((List.range i).map drafts) (ω (i, .select)))
    (htest : ∀ i, i < n → (test i = true ↔
      ω (i, .accept) ∈ S.accept ((List.range i).map drafts) (drafts i)))
    (hcorrection : ∀ i, i < n → correction i =
      S.correct ((List.range i).map drafts) (drafts i) (ω (i, .correct)))
    (hbonus : bonus n = S.bonus ((List.range n).map drafts) (ω (n, .bonus))) :
    ∀ left c, c + left = n →
      (acceptColumns test correction bonus left c).licensed drafts =
        S.tokens ω left c ((List.range c).map drafts) := by
  intro left
  induction left with
  | zero =>
    intro c hc
    obtain rfl : c = n := hc
    show _ ++ [bonus c] = _
    rw [hbonus]
    rfl
  | succ left ih =>
    intro c hc
    have hlt : c < n := by omega
    have hd := hdraft c hlt
    unfold acceptColumns
    by_cases hkeep : test c = true
    · have hin := (htest c hlt).mp hkeep
      rw [if_pos hkeep, ih (c + 1) (by omega)]
      rw [hd] at hin
      rw [S.tokens_kept hin, ← hd, range_succ, map_append, map_singleton]
    · have hout := fun h => hkeep ((htest c hlt).mpr h)
      rw [if_neg hkeep]
      show _ ++ [correction c] = _
      rw [hcorrection c hlt]
      rw [hd] at hout ⊢
      rw [S.tokens_corrected hout]

-- ============ the proposals

/-- How a row's drafts come about. -/
inductive Proposal where
  /-- drafts taken as certain by `speculative_accept_greedy_drafts` -/
  | oneHot (drafts : Nat → Token)
  /-- drafts drawn from a selector, for `dflash2_accept` -/
  | selected (selector : List Token → List (Token × ℝ))
  /-- drafts copied from the context, for `dflash2_accept` -/
  | copied (drafts : Nat → Token) (padding : Nat)

namespace Proposal

/-- The op that takes the proposal. -/
def op : Proposal → AcceptOp
  | .oneHot _ => .speculativeAccept
  | .selected _ => .dflash2Accept
  | .copied _ _ => .dflash2Accept

/-- The drafts of a row under its uniforms. -/
noncomputable def drafts (length : Int) (u : Uniform ℝ) : Proposal → Nat → Token
  | .oneHot drafts, i => drafts i
  | .selected selector, i =>
    selectPick (selector (selectPath selector length u i))
      (u (length + 1 + i, .dflashSelect))
  | .copied drafts _, i => drafts i

/-- The list the acceptance op weighs column `i` by, if it does. -/
noncomputable def listed (length : Int) (u : Uniform ℝ) :
    Proposal → Nat → Option (List (Token × ℝ))
  | .oneHot _, _ => none
  | .selected selector, i => some (selector (selectPath selector length u i))
  | .copied drafts padding, i => some (copiedColumn (drafts i) padding)

/-- Every token a selector lists is listed once, padding apart. -/
def Listed : Proposal → Prop
  | .oneHot _ => True
  | .selected selector => ∀ w, Listing (selector w)
  | .copied _ _ => True

/-- The chain of columns a proposal makes of the target's columns. -/
noncomputable def sampler (support : List Token → List (Token × ℝ)) :
    Proposal → RejectionSampler Token
  | .oneHot drafts => oneHotSampler support drafts
  | .selected selector =>
    weighedSampler support selector (fun w => selectPick (selector w))
  | .copied drafts padding =>
    weighedSampler support (fun w => copiedColumn (drafts w.length) padding)
      (fun w _ => drafts w.length)

/-- The drafts of a row are its selected path. -/
theorem selectPath_eq (selector : List Token → List (Token × ℝ))
    (length : Int) (u : Uniform ℝ) : ∀ n,
    (List.range n).map ((Proposal.selected selector).drafts length u) =
      selectPath selector length u n := by
  intro n
  induction n with
  | zero => rfl
  | succ n ih =>
    rw [range_succ, map_append, map_singleton, ih]
    rfl

/-- Every proposal owes each column what it should. -/
theorem faithful (proposal : Proposal) (hlisted : proposal.Listed)
    (hsupport : ∀ w, Distribution (support w)) :
    ∃ drafts, (proposal.sampler support).Faithful
      (fun w => listedProbability (support w)) drafts := by
  cases proposal with
  | oneHot drafts => exact ⟨_, oneHot_faithful hsupport drafts⟩
  | selected selector =>
    refine ⟨fun w => (0 :: (selector w).map Prod.fst).toFinset,
      weighed_faithful hsupport hlisted
        (fun w x => measurable_selectPick _ _) ?_ ?_
        (fun w x => (hlisted w).select x)⟩
    · intro w u
      exact mem_toFinset.mpr (inverseCdf_mem u (selector w) 0 0)
    · intro w c hc
      exact mem_toFinset.mpr (.tail _ (mem_map_of_mem hc))
  | copied drafts padding =>
    have hlisting := fun w : List Token =>
      Listing.copied (drafts w.length) padding
    refine ⟨fun w => {drafts w.length, 0}, weighed_faithful hsupport hlisting
        (fun w x => MeasurableSet.const (drafts w.length = x)) ?_ ?_ ?_⟩
    · intro w u
      exact Finset.mem_insert_self _ _
    · intro w c hc
      rcases mem_cons.mp hc with rfl | hc
      · exact Finset.mem_insert_self _ _
      · rw [eq_of_mem_replicate hc]
        exact Finset.mem_insert_of_mem (Finset.mem_singleton_self _)
    · intro w x
      show unitUniform.real {_u | drafts w.length = x} = _
      rw [(hlisting w).once, copiedColumn, scattered_cons]
      rw [(padding_blank padding x).2.1, add_zero]
      by_cases h : drafts w.length = x <;> simp [h]

end Proposal

-- ============ the law of the published tokens

/-- The distribution of a sampler that draws one token at a time, counts
each as it draws it, and has drawn `w` since the counts were `counts`. -/
noncomputable def nextDistribution
    (truncate : SamplingConfig ℝ → (Token → ℝ) → List (Token × ℝ))
    (cfg : SamplingConfig ℝ) (counts : Token → Nat)
    (target : List Token → Token → ℝ) (w : List Token) :
    List (Token × ℝ) :=
  truncate cfg (fun v => samplingAdjustedLogit (target w v) v cfg
    (w.foldl (countToken cfg) counts) [])

/-- A sampled row of a round under its uniforms: the drafts are the
proposal's, and the target's logits of column `i` are its logits after the
first `i` drafts. -/
structure Proposed (k batch row : Nat) (d : Device)
    (cfg : SamplingConfig ℝ) (extent : Int)
    (target : List Token → Token → ℝ) (proposal : Proposal)
    (u : Uniform ℝ) (r : Round ℝ) : Prop where
  op : r.op = proposal.op
  order : r.order.Perm (List.range batch)
  extents : r.currentExtents row = extent
  config : r.configs row = cfg
  uniform : r.uniform row = u
  drafts : ∀ i, i < clampExtent k extent →
    r.drafts (row * k + i) = proposal.drafts (d.lengths row) u i
  selector : ∀ i, i < clampExtent k extent → ∀ l,
    proposal.listed (d.lengths row) u i = some l → r.selector row i = l
  logits : ∀ i, i ≤ clampExtent k extent →
    r.logits (row * (k + 1) + i) =
      target ((List.range i).map (fun j => r.drafts (row * k + j)))

section

variable {truncate : SamplingConfig ℝ → (Token → ℝ) → List (Token × ℝ)}
variable {k batch row : Nat} {d : Device} {cfg : SamplingConfig ℝ}
variable {extent : Int} {target : List Token → Token → ℝ}
variable {proposal : Proposal} {u : Uniform ℝ} {r : Round ℝ}

variable (h : Proposed k batch row d cfg extent target proposal u r)

include h

/-- A column is truncated as the one-token sampler truncates it. -/
theorem Proposed.column {i : Nat} (hi : i ≤ clampExtent k extent) :
    (rowInputs truncate k r d row).support i =
      nextDistribution truncate cfg (d.tokenCounts row) target
        ((List.range i).map (fun j => r.drafts (row * k + j))) := by
  simp only [rowInputs, nextDistribution, h.config, h.logits i hi]
  congr 1
  funext v
  exact adjustedLogit_overlay _ _ _ _ _

/-- The drafts before a column are the proposal's. -/
theorem Proposed.prefix_eq {i : Nat} (hi : i ≤ clampExtent k extent) :
    (List.range i).map (fun j => r.drafts (row * k + j)) =
      (List.range i).map (proposal.drafts (d.lengths row) u) := by
  refine map_congr_left fun j hj => h.drafts j ?_
  have := mem_range.mp hj
  omega

/-- A row's outcome is the chain its proposal makes of the target. -/
theorem Proposed.outcome_tokens (hsampled : 0 < cfg.temperature) :
    (acceptOutcome truncate k r d row).licensed
        (fun i => r.drafts (row * k + i)) =
      (proposal.sampler (nextDistribution truncate cfg
        (d.tokenCounts row) target)).tokens
        (fun key => u (drawKey (d.lengths row) key))
        (clampExtent k extent) 0 [] := by
  obtain rfl : r.currentExtents row = extent := h.extents
  have hsupport : ∀ i, i ≤ clampExtent k (r.currentExtents row) →
      (rowInputs truncate k r d row).support i =
        nextDistribution truncate cfg (d.tokenCounts row) target
          ((List.range i).map (fun j => r.drafts (row * k + j))) :=
    fun i hi => h.column hi
  have huniform : (rowInputs truncate k r d row).uniform = u := h.uniform
  unfold acceptOutcome
  dsimp only
  rw [h.config, if_pos hsampled, h.op]
  cases proposal with
  | oneHot drafts =>
    refine acceptColumns_tokens (n := clampExtent k _) _ _ ?_ ?_ ?_ ?_ _
      0 (zero_add _)
    · intro i hi
      simpa [oneHotSampler, Proposal.sampler, Proposal.drafts] using h.drafts i hi
    · intro i hi
      rw [decide_eq_true_iff, hsupport i (le_of_lt hi), huniform]
      rfl
    · intro i hi
      rw [hsupport i (le_of_lt hi), huniform]
      rfl
    · unfold bonusPick
      rw [hsupport _ (le_refl _), huniform]
      rfl
  | selected selector =>
    have hlist : ∀ i, i < clampExtent k (r.currentExtents row) →
        (rowInputs truncate k r d row).selector i =
          selector ((List.range i).map
            (fun j => r.drafts (row * k + j))) := by
      intro i hi
      rw [h.prefix_eq (le_of_lt hi), Proposal.selectPath_eq]
      exact h.selector i hi _ rfl
    refine acceptColumns_tokens (n := clampExtent k _) _ _ ?_ ?_ ?_ ?_ _
      0 (zero_add _)
    · intro i hi
      rw [h.prefix_eq (le_of_lt hi), Proposal.selectPath_eq]
      exact h.drafts i hi
    · intro i hi
      rw [decide_eq_true_iff, hsupport i (le_of_lt hi), huniform, hlist i hi]
      rfl
    · intro i hi
      rw [hsupport i (le_of_lt hi), huniform, hlist i hi]
      rfl
    · unfold bonusPick
      rw [hsupport _ (le_refl _), huniform]
      rfl
  | copied drafts padding =>
    have hlist : ∀ i, i < clampExtent k (r.currentExtents row) →
        (rowInputs truncate k r d row).selector i =
          copiedColumn (drafts i) padding :=
      fun i hi => h.selector i hi _ rfl
    refine acceptColumns_tokens (n := clampExtent k _) _ _ ?_ ?_ ?_ ?_ _
      0 (zero_add _)
    · intro i hi
      simpa [weighedSampler, Proposal.sampler, Proposal.drafts] using
        h.drafts i hi
    · intro i hi
      rw [decide_eq_true_iff, hsupport i (le_of_lt hi), huniform, hlist i hi]
      simp [weighedSampler, Proposal.sampler, rowInputs, drawKey]
    · intro i hi
      rw [hsupport i (le_of_lt hi), huniform, hlist i hi]
      simp [weighedSampler, Proposal.sampler, rowInputs, drawKey]
    · unfold bonusPick
      rw [hsupport _ (le_refl _), huniform]
      rfl

variable (hsampled : 0 < cfg.temperature) (hrow : row < batch)
  (htaken : proposal.op = .dflash2Accept → 0 ≤ extent ∧ extent ≤ k)

include hsampled hrow htaken

/-- What the host reads for the row is the chain's tokens. -/
theorem Proposed.licensed_tokens :
    licensedRow k (acceptDrafts truncate k r d) row =
      (proposal.sampler (nextDistribution truncate cfg
        (d.tokenCounts row) target)).tokens
        (fun key => u (drawKey (d.lengths row) key))
        (clampExtent k extent) 0 [] := by
  have htaken' : ExtentTaken k r row := by
    intro hop
    rw [h.extents]
    exact htaken (h.op.symm.trans hop)
  have ho : (acceptOutcome truncate k r d row).accepted ≤ k :=
    le_trans (acceptOutcome_le d row) (clampExtent_le _ _)
  rw [licensedRow_eq ho (acceptDrafts_row h.order hrow htaken' d),
    h.outcome_tokens hsampled]

/-- The row's counts after the round are those of the tokens it
licensed. -/
theorem Proposed.counts : (acceptDrafts truncate k r d).tokenCounts row =
      (licensedRow k (acceptDrafts truncate k r d) row).foldl
        (countToken cfg) (d.tokenCounts row) := by
  have htaken' : ExtentTaken k r row := by
    intro hop
    rw [h.extents]
    exact htaken (h.op.symm.trans hop)
  have ho : (acceptOutcome truncate k r d row).accepted ≤ k :=
    le_trans (acceptOutcome_le d row) (clampExtent_le _ _)
  have hview : rowView k row (acceptDrafts truncate k r d) = _ :=
    acceptDrafts_row h.order hrow htaken' d
  rw [licensedRow_eq ho hview]
  have hcounts := congrArg RowView.counts (hview.trans (commitRow_view d row ho))
  simp only [rowView, h.config, hsampled, if_true] at hcounts
  exact hcounts

omit hsampled hrow htaken

omit h

end

/-- Stochastic acceptance preserves the target's distribution. For a
sampled row, whatever its proposal and its extent, the tokens a round
licenses — completed to extent + 1 tokens by tokens drawn one at a time —
have the law of extent + 1 tokens drawn one at a time; each licensed token
has the one-token law after the tokens before it; each column is truncated
under exactly the counts of a sampler that draws one token at a time, and
the round leaves the counts such a sampler would leave. -/
theorem acceptance_law
    (truncate : SamplingConfig ℝ → (Token → ℝ) → List (Token × ℝ))
    (htruncate : ∀ c logits, Distribution (truncate c logits))
    (k batch row : Nat) (hrow : row < batch) (d : Device)
    (cfg : SamplingConfig ℝ) (hsampled : 0 < cfg.temperature)
    (extent : Int) (target : List Token → Token → ℝ)
    (proposal : Proposal) (hlisted : proposal.Listed)
    (htaken : proposal.op = .dflash2Accept → 0 ≤ extent ∧ extent ≤ k)
    (r : Uniform ℝ → Round ℝ)
    (hr : ∀ u, Proposed k batch row d cfg extent target proposal u (r u)) :
    let law := uniforms (Int × SamplePurpose)
    let licensed := fun u =>
      licensedRow k (acceptDrafts truncate k (r u) d) row
    let next := nextDistribution truncate cfg (d.tokenCounts row) target
    let p := fun w => listedProbability (next w)
    let n := clampExtent k extent
    (∀ x : List Token, x.length = n + 1 →
      ∑ m ∈ Finset.range (n + 1),
        law.real {u | licensed u = x.take (m + 1)} *
          chainProd p (x.take (m + 1)) (x.drop (m + 1)) =
        chainProd p [] x) ∧
    (∀ (x : List Token) (t : Token), x.length ≤ n →
      law.real {u | x ++ [t] <+: licensed u} =
        law.real {u | x <+: licensed u ∧
          x.length < (licensed u).length} * p x t) ∧
    (∀ u i, i ≤ n →
      (rowInputs truncate k (r u) d row).support i =
        next ((List.range i).map (fun j => (r u).drafts (row * k + j)))) ∧
    (∀ u, (acceptDrafts truncate k (r u) d).tokenCounts row =
      (licensed u).foldl (countToken cfg) (d.tokenCounts row)) := by
  intro law licensed next p n
  have hnext : ∀ w, Distribution (next w) := fun w => htruncate cfg _
  obtain ⟨drafts, hfaithful⟩ := proposal.faithful hlisted hnext
  have hevent : ∀ event : List Token → Prop,
      law.real {u | event (licensed u)} =
        (proposal.sampler next).chance n event := by
    intro event
    rw [← hfaithful.chance_of_keys (drawKey_injective (d.lengths row))]
    congr 1
    ext u
    show event (licensed u) ↔ event _
    rw [show licensed u = _ from (hr u).licensed_tokens hsampled hrow htaken]
  refine ⟨fun x hx => ?_, fun x t hx => ?_, fun u i hi => (hr u).column hi,
    fun u => (hr u).counts hsampled hrow htaken⟩
  · show _ = chainProd (fun w => listedProbability (next w)) [] x
    rw [← hfaithful.completed hx]
    refine Finset.sum_congr rfl fun m _ => ?_
    rw [hevent (fun y => y = x.take (m + 1))]
  · rw [hevent (fun y => x ++ [t] <+: y),
      hevent (fun y => x <+: y ∧ x.length < y.length)]
    exact hfaithful.next_token hx t

-- ============ two small rounds

/-- Two tokens, equally likely. -/
noncomputable def halves : List (Token × ℝ) := [(0, 1 / 2), (1, 1 / 2)]

theorem halves_distribution : Distribution halves where
  nonneg c hc := by
    simp only [halves, mem_cons, not_mem_nil, or_false] at hc
    rcases hc with rfl | rfl <;> norm_num
  total := by
    simp only [halves, totalWeight_cons, totalWeight_nil]
    norm_num
  nodup := by simp [halves]
  token c hc := by
    simp only [halves, mem_cons, not_mem_nil, or_false] at hc
    rcases hc with rfl | rfl <;> norm_num

/-- A sampled row without penalties. -/
def sampledConfig : SamplingConfig ℝ :=
  ⟨1, 0, 0, false, fun _ => ⟨rfl, rfl⟩⟩

/-- A round of one row and one draft, drawn from `selector`. -/
noncomputable def selectedRound (selector : List (Token × ℝ))
    (u : Uniform ℝ) : Round ℝ where
  op := .dflash2Accept
  currentExtents _ := 1
  drafts i := (Proposal.selected fun _ => selector).drafts 1 u i
  selector _ _ := selector
  targetTokens _ := 0
  logits _ _ := 0
  configs _ := sampledConfig
  uniform _ := u
  order := [0]

theorem selectedRound_proposed (selector : List (Token × ℝ)) (u : Uniform ℝ) :
    Proposed 1 1 0 sampleStart.device sampledConfig 1 (fun _ _ => 0)
      (.selected fun _ => selector) u (selectedRound selector u) where
  op := rfl
  order := List.Perm.refl _
  extents := rfl
  config := rfl
  uniform := rfl
  drafts i _ := by
    simp only [zero_mul, zero_add]
    rfl
  selector i _ l hl := Option.some.inj hl
  logits _ _ := rfl

/-- The tokens a round licenses whose target draws either token. -/
noncomputable def selectedTokens (selector : List (Token × ℝ))
    (u : Uniform ℝ) : List Token :=
  licensedRow 1 (acceptDrafts (fun _ _ => halves) 1 (selectedRound selector u)
    sampleStart.device) 0

/-- A selector that prefers the first token does not bias the round: its
first token is still either, with a chance of one half. -/
theorem acceptance_law_halves :
    (uniforms (Int × SamplePurpose)).real
        {u | [0] <+: selectedTokens [(0, 3 / 4), (1, 1 / 4)] u} =
      (uniforms (Int × SamplePurpose)).real {u | [] <+:
          selectedTokens [(0, 3 / 4), (1, 1 / 4)] u ∧
        0 < (selectedTokens [(0, 3 / 4), (1, 1 / 4)] u).length} *
        listedProbability halves 0 := by
  have hlisting : Listing [((0 : Token), (3 / 4 : ℝ)), (1, 1 / 4)] := by
    refine Listing.of_nodup ?_ ?_ (by simp)
    · intro c hc
      simp only [List.mem_cons, List.not_mem_nil, or_false] at hc
      rcases hc with rfl | rfl <;> norm_num
    · simp only [totalWeight_cons, totalWeight_nil]
      norm_num
  exact (acceptance_law (fun _ _ => halves) (fun _ _ => halves_distribution)
    1 1 0 (by decide) sampleStart.device sampledConfig one_pos 1
    (fun _ _ => 0) (.selected fun _ => [(0, 3 / 4), (1, 1 / 4)])
    (fun _ => hlisting) (fun _ => ⟨by decide, by decide⟩)
    (selectedRound [(0, 3 / 4), (1, 1 / 4)])
    (selectedRound_proposed _)).2.1 [] 0 (by decide)

/-- One token, listed twice. -/
noncomputable def twice : List (Token × ℝ) := [(0, 1 / 2), (0, 1 / 2)]

/-- A candidate listed twice with a probability of its own biases the
round: the test weighs the draft by its first listing only. Here the
draft is always the first token and always kept, so that the second is
never licensed, though the target draws it half of the time. -/
theorem duplicate_candidate_biased :
    (∀ c ∈ twice, 0 ≤ c.2) ∧
    totalWeight twice = 1 ∧
    (∀ u, Proposed 1 1 0 sampleStart.device sampledConfig 1 (fun _ _ => 0)
      (.selected fun _ => twice) u (selectedRound twice u)) ∧
    (uniforms (Int × SamplePurpose)).real {u | [1] <+: selectedTokens twice u} ≠
      (uniforms (Int × SamplePurpose)).real {u | [] <+: selectedTokens twice u ∧
        0 < (selectedTokens twice u).length} *
        listedProbability halves 1 := by
  have htokens : ∀ u, selectedTokens twice u = _ := fun u =>
    (selectedRound_proposed twice u).licensed_tokens one_pos (by decide)
      (fun _ => ⟨by decide, by decide⟩)
  refine ⟨?_, ?_, selectedRound_proposed _, ?_⟩
  · intro c hc
    simp only [twice, List.mem_cons, List.not_mem_nil, or_false, or_self] at hc
    rw [hc]
    norm_num
  · simp only [twice, totalWeight_cons, totalWeight_nil]
    norm_num
  · -- licensing the second token takes a uniform outside [0, 1)
    have hsubset : {u : Uniform ℝ | [1] <+: selectedTokens twice u} ⊆
        Set.univ ∩ {u | u (2, .speculativeAccept) ∈ (Set.Iio (1 : ℝ))ᶜ} := by
      intro u hu
      refine ⟨trivial, ?_⟩
      have hfirst := hu
      simp only [Set.mem_ofPred_eq] at hfirst
      rw [htokens u, show clampExtent 1 1 = 0 + 1 by decide] at hfirst
      have hdraft : ∀ g : ℝ, selectPick twice g = 0 := by
        intro g
        simp only [twice, selectPick, inverseCdf, ite_self]
      rcases (prefix_first _).mp
          (show ([] : List Token) ++ [1] <+: _ from hfirst) with
        ⟨hone, -⟩ | ⟨t, ⟨rfl, hstop⟩, -⟩
      · exact absurd ((hdraft _).symm.trans hone) (by decide)
      · simp only [Proposal.sampler, weighedSampler, hdraft,
          Set.mem_ofPred_eq] at hstop
        simp only [Set.mem_compl_iff, Set.mem_Iio]
        intro hlt
        refine hstop ?_
        show u (2, .speculativeAccept) * listedProbability twice 0 <
          listedProbability halves 0
        simp only [listedProbability, twice, halves, if_true]
        linarith
    have hbox := (Box.univ.inter
      (Finset.notMem_empty ((2 : Int), SamplePurpose.speculativeAccept))
      (measurableSet_Iio (a := (1 : ℝ))).compl).2
    have hnull : unitUniform.real (Set.Iio (1 : ℝ))ᶜ = 0 := by
      rw [probReal_compl_eq_one_sub measurableSet_Iio]
      show 1 - unitUniform.real {u | u < 1} = 0
      rw [unitUniform_lt zero_le_one, min_self, sub_self]
    rw [hnull, mul_zero] at hbox
    have hnever := le_antisymm
      (hbox ▸ measureReal_mono hsubset) measureReal_nonneg
    -- and the round licenses a token in any case
    have halways : {u : Uniform ℝ | [] <+: selectedTokens twice u ∧
        0 < (selectedTokens twice u).length} = Set.univ := by
      refine Set.eq_univ_of_forall fun u => ?_
      simp only [Set.mem_ofPred_eq]
      rw [htokens u]
      exact tokens_extends _ _ _ _ _
    rw [hnever, halways, probReal_univ]
    simp [halves, listedProbability]

end Ginfer.Ops
