/-
The law of a single draw.

Every pick walks a list of weights until the cumulative weight passes a
uniform fraction of the total, so that a token is picked with the share
it has in the list (`inverseCdf_law`). The picks of the acceptance
kernels follow: from the target's distribution, from it without a
rejected draft, and from what the selector left of it; a selector's own
pick follows its list (`selectPick_law`).

- `Distribution` — a target's column: tokens listed once, summing to one.
- `Listing` — a selector's column: the first listing of a token carries
  all its probability. Distinct candidates are listed so
  (`Listing.of_nodup`), and so is a copied token with its padding
  (`Listing.copied`).
-/
import Ginfer.Lib.Rejection
import Ginfer.Ops.DFlash2Select

namespace Ginfer.Ops

open Ginfer.Lib MeasureTheory List Prod

-- ============ listings

/-- The total weight of a list. -/
def totalWeight (l : List (Token × ℝ)) : ℝ := (l.map snd).sum

@[simp] theorem totalWeight_nil : totalWeight [] = 0 := rfl

@[simp] theorem totalWeight_cons (c : Token × ℝ) (l : List (Token × ℝ)) :
    totalWeight (c :: l) = c.2 + totalWeight l := by
  simp [totalWeight]

variable {l : List (Token × ℝ)}

theorem totalWeight_nonneg (h : ∀ c ∈ l, 0 ≤ c.2) : 0 ≤ totalWeight l := by
  induction l with
  | nil => exact le_refl 0
  | cons c l ih =>
    rw [totalWeight_cons]
    have := h c (.head _)
    have := ih (fun c hc => h c (.tail _ hc))
    linarith

@[simp] theorem scattered_nil (t : Token) :
    scatteredProbability ([] : List (Token × ℝ)) t = 0 := rfl

@[simp] theorem scattered_cons (c : Token × ℝ) (l : List (Token × ℝ))
    (t : Token) :
    scatteredProbability (c :: l) t =
      (if c.1 = t then c.2 else 0) + scatteredProbability l t := by
  unfold scatteredProbability
  by_cases h : c.1 = t <;> simp [h]

theorem scattered_nonneg (h : ∀ c ∈ l, 0 ≤ c.2)
    (t : Token) : 0 ≤ scatteredProbability l t := by
  induction l with
  | nil => exact le_refl 0
  | cons c l ih =>
    rw [scattered_cons]
    have hc := h c (.head _)
    have hl := ih (fun c hc => h c (.tail _ hc))
    split <;> linarith

/-- Nothing is scattered to a token that is not listed. -/
theorem scattered_of_notMem {t : Token}
    (h : t ∉ l.map fst) : scatteredProbability l t = 0 := by
  induction l with
  | nil => rfl
  | cons c l ih =>
    rw [map_cons, mem_cons, not_or] at h
    rw [scattered_cons, if_neg (Ne.symm h.1), ih h.2, add_zero]

/-- The weights of the listed tokens add up. -/
theorem sum_scattered (l : List (Token × ℝ)) {s : Finset Token}
    (h : ∀ c ∈ l, c.1 ∈ s) :
    ∑ t ∈ s, scatteredProbability l t = totalWeight l := by
  induction l with
  | nil => simp
  | cons c l ih =>
    simp only [scattered_cons, Finset.sum_add_distrib, totalWeight_cons]
    rw [ih (fun c hc => h c (.tail _ hc)),
      Finset.sum_ite_eq s c.1 (fun _ => c.2),
      if_pos (h c (.head _))]

/-- Where a token is listed once, its first listing is all of it. -/
theorem listed_eq_scattered (h : (l.map fst).Nodup) (t : Token) :
    listedProbability l t = scatteredProbability l t := by
  induction l with
  | nil => rfl
  | cons c l ih =>
    obtain ⟨hnot, hrest⟩ := nodup_cons.mp h
    rw [scattered_cons]
    show (if c.1 = t then c.2 else listedProbability l t) = _
    by_cases heq : c.1 = t
    · rw [if_pos heq, if_pos heq, scattered_of_notMem (heq ▸ hnot), add_zero]
    · rw [if_neg heq, if_neg heq, ih hrest, zero_add]

-- ============ inverse CDF

theorem measurable_inverseCdf (l : List (Token × ℝ)) :
    ∀ (acc : ℝ) (last t : Token),
      MeasurableSet {g | inverseCdf g l acc last = t} := by
  induction l with
  | nil =>
    intro acc last t
    exact MeasurableSet.const (last = t)
  | cons c l ih =>
    intro acc last t
    have hset : {g | inverseCdf g (c :: l) acc last = t} =
        ({g | g < acc + c.2} ∩ {_g | c.1 = t}) ∪
          ({g | g < acc + c.2}ᶜ ∩
            {g | inverseCdf g l (acc + c.2) c.1 = t}) := by
      ext g
      by_cases h : g < acc + c.2 <;> simp [inverseCdf, h]
    rw [hset]
    exact (measurableSet_Iio.inter (MeasurableSet.const _)).union
      (measurableSet_Iio.compl.inter (ih _ _ _))

/-- The goals that pick `t` have the length of its weight. -/
theorem inverseCdf_volume (l : List (Token × ℝ)) (t : Token) :
    (∀ c ∈ l, 0 ≤ c.2) → ∀ (acc : ℝ) (last : Token),
      volume.real {g | (acc ≤ g ∧ g < acc + totalWeight l) ∧
        inverseCdf g l acc last = t} = scatteredProbability l t := by
  induction l with
  | nil =>
    intro _ acc last
    have hempty : {g | (acc ≤ g ∧ g < acc + totalWeight []) ∧
        inverseCdf g [] acc last = t} = ∅ := by
      ext g
      simp only [totalWeight_nil, add_zero, Set.mem_ofPred_eq,
        Set.mem_empty_iff_false, iff_false]
      rintro ⟨⟨hle, hlt⟩, -⟩
      exact absurd hlt (not_lt.mpr hle)
    rw [hempty, measureReal_empty]
    rfl
  | cons c l ih =>
    intro hnonneg acc last
    have hc := hnonneg c (.head _)
    have hl : ∀ c ∈ l, 0 ≤ c.2 :=
      fun c hc => hnonneg c (.tail _ hc)
    have htotal := totalWeight_nonneg hl
    -- below the first weight the first token, above it the rest
    have hset : {g | (acc ≤ g ∧ g < acc + totalWeight (c :: l)) ∧
        inverseCdf g (c :: l) acc last = t} =
        (if c.1 = t then Set.Ico acc (acc + c.2) else ∅) ∪
          {g | (acc + c.2 ≤ g ∧ g < acc + c.2 + totalWeight l) ∧
            inverseCdf g l (acc + c.2) c.1 = t} := by
      ext g
      rw [totalWeight_cons, ← add_assoc]
      simp only [Set.mem_ofPred_eq, Set.mem_union, inverseCdf]
      by_cases hlt : g < acc + c.2
      · have hrest : ¬ acc + c.2 ≤ g := not_le.mpr hlt
        have hend : g < acc + c.2 + totalWeight l := by linarith
        by_cases ht : c.1 = t <;>
          simp [hlt, hrest, hend, ht]
      · have hge : acc + c.2 ≤ g := not_lt.mp hlt
        have hacc : acc ≤ g := by linarith
        by_cases ht : c.1 = t <;> simp [hlt, hge, hacc, ht]
    have hmeasurable : MeasurableSet
        {g | (acc + c.2 ≤ g ∧ g < acc + c.2 + totalWeight l) ∧
          inverseCdf g l (acc + c.2) c.1 = t} :=
      measurableSet_Ico.inter (measurable_inverseCdf l _ _ _)
    have hfinite : volume
        {g | (acc + c.2 ≤ g ∧ g < acc + c.2 + totalWeight l) ∧
          inverseCdf g l (acc + c.2) c.1 = t} ≠ ⊤ := by
      refine ne_top_of_le_ne_top
        (measure_Ico_lt_top :
          volume (Set.Ico (acc + c.2) (acc + c.2 + totalWeight l)) < ⊤).ne
        (measure_mono fun g hg => hg.1)
    have hdisjoint : Disjoint (if c.1 = t then Set.Ico acc (acc + c.2) else ∅)
        {g | (acc + c.2 ≤ g ∧ g < acc + c.2 + totalWeight l) ∧
          inverseCdf g l (acc + c.2) c.1 = t} := by
      refine Set.disjoint_left.mpr fun g hg hrest => ?_
      split at hg
      · exact absurd hg.2 (not_lt.mpr hrest.1.1)
      · exact hg
    rw [hset, measureReal_union hdisjoint hmeasurable
      (by split <;> simp) hfinite, ih hl, scattered_cons]
    congr 1
    split
    · rw [Real.volume_real_Ico, add_sub_cancel_left, max_eq_left hc]
    · exact measureReal_empty

/-- A pick from a list takes each token with its share of the total. -/
theorem inverseCdf_law (hl : ∀ c ∈ l, 0 ≤ c.2)
    (hpos : 0 < totalWeight l) (last t : Token) :
    unitUniform.real {u | inverseCdf (u * totalWeight l) l 0 last = t} *
      totalWeight l = scatteredProbability l t := by
  have hset : {u | inverseCdf (u * totalWeight l) l 0 last = t} ∩ Set.Ico 0 1 =
      Set.preimage (fun u => u * totalWeight l)
        {g | (0 ≤ g ∧ g < 0 + totalWeight l) ∧
          inverseCdf g l 0 last = t} := by
    ext u
    simp only [Set.mem_inter_iff, Set.mem_ofPred_eq, Set.mem_Ico,
      Set.mem_preimage, zero_add]
    rw [mul_nonneg_iff_of_pos_right hpos, mul_lt_iff_lt_one_left hpos]
    tauto
  rw [unitUniform_real, hset, Measure.real,
    Real.volume_preimage_mul_right (ne_of_gt hpos), ENNReal.toReal_mul,
    ENNReal.toReal_ofReal (abs_nonneg _), abs_of_pos (inv_pos.mpr hpos),
    mul_right_comm, inv_mul_cancel₀ (ne_of_gt hpos), one_mul]
  exact inverseCdf_volume l t hl 0 last

-- ============ distributions

/-- A target's truncated distribution: the probabilities of distinct
tokens, summing to one. -/
structure Distribution (l : List (Token × ℝ)) : Prop where
  nonneg : ∀ c ∈ l, 0 ≤ c.2
  total : totalWeight l = 1
  nodup : (l.map fst).Nodup
  token : ∀ c ∈ l, 0 ≤ c.1

/-- A selector's distribution, listed as candidates and probabilities:
the first listing of a token carries everything listed for it. -/
structure Listing (l : List (Token × ℝ)) : Prop where
  nonneg : ∀ c ∈ l, 0 ≤ c.2
  total : totalWeight l = 1
  once : ∀ t, listedProbability l t = scatteredProbability l t

/-- Distinct candidates (an exact top-k) are a listing. -/
theorem Listing.of_nodup (hl : ∀ c ∈ l, 0 ≤ c.2)
    (htotal : totalWeight l = 1) (hnodup : (l.map fst).Nodup) :
    Listing l :=
  ⟨hl, htotal, listed_eq_scattered hnodup⟩

/-- Padding lists nothing. -/
theorem padding_blank (n : Nat) (t : Token) :
    listedProbability (List.replicate n ((0 : Token), (0 : ℝ))) t = 0 ∧
    scatteredProbability (List.replicate n ((0 : Token), (0 : ℝ))) t = 0 ∧
    totalWeight (List.replicate n ((0 : Token), (0 : ℝ))) = 0 := by
  induction n with
  | zero => exact ⟨rfl, rfl, rfl⟩
  | succ n ih =>
    obtain ⟨hlisted, hscattered, htotal⟩ := ih
    rw [replicate_succ]
    refine ⟨?_, ?_, ?_⟩
    · show (if (0 : Token) = t then 0 else listedProbability _ t) = 0
      rw [hlisted, ite_self]
    · rw [scattered_cons, hscattered, ite_self, add_zero]
    · rw [totalWeight_cons, htotal, add_zero]

/-- A token copied from the context, with its padding of zeros
(`dflash2_fuse_context_copy_kernel`), is a listing. -/
theorem Listing.copied (token : Token) (padding : Nat) :
    Listing (copiedColumn token padding) := by
  unfold copiedColumn
  refine ⟨?_, ?_, ?_⟩
  · intro c hc
    rcases mem_cons.mp hc with rfl | hc
    · exact zero_le_one
    · rw [eq_of_mem_replicate hc]
  · rw [totalWeight_cons, (padding_blank padding 0).2.2, add_zero]
  · intro t
    show (if token = t then 1 else listedProbability _ t) = _
    rw [scattered_cons, (padding_blank padding t).1, (padding_blank padding t).2.1, add_zero]

-- ============ the picks

variable {l selector : List (Token × ℝ)}

/-- The mass left when a token is excluded. -/
theorem totalWeight_filter (l : List (Token × ℝ)) (exclude : Token) :
    totalWeight (l.filter (fun c => c.1 ≠ exclude)) +
      scatteredProbability l exclude = totalWeight l := by
  induction l with
  | nil => simp
  | cons c l ih =>
    rw [scattered_cons, totalWeight_cons]
    by_cases h : c.1 = exclude
    · rw [filter_cons_of_neg (by simp [h]), if_pos h]
      linarith
    · rw [filter_cons_of_pos (by simp [h]), if_neg h, totalWeight_cons]
      linarith

theorem scattered_filter (l : List (Token × ℝ)) (exclude t : Token) :
    scatteredProbability (l.filter (fun c => c.1 ≠ exclude)) t =
      if t = exclude then 0 else scatteredProbability l t := by
  induction l with
  | nil => simp
  | cons c l ih =>
    rw [scattered_cons]
    by_cases h : c.1 = exclude
    · rw [filter_cons_of_neg (by simp [h]), ih]
      by_cases ht : t = exclude
      · rw [if_pos ht, if_pos ht]
      · have hc : c.1 ≠ t := fun hc => ht (hc.symm.trans h)
        rw [if_neg ht, if_neg ht, if_neg hc, zero_add]
    · rw [filter_cons_of_pos (by simp [h]), scattered_cons, ih]
      by_cases ht : t = exclude
      · have hc : c.1 ≠ t := fun hc => h (hc.trans ht)
        rw [if_pos ht, if_pos ht, if_neg hc, add_zero]
      · rw [if_neg ht, if_neg ht]

theorem measurable_pickFromSupport (l : List (Token × ℝ)) (exclude t : Token) :
    MeasurableSet {u | samplingPickFromSupport l exclude u = t} := by
  unfold samplingPickFromSupport
  dsimp only
  split
  · exact MeasurableSet.const _
  · exact measurable_mul_const _ (measurable_inverseCdf _ _ _ t)

/-- `sampling_pick_from_support` without `exclude`, weighed by the mass
it leaves. -/
theorem pickFromSupport_law (hl : ∀ c ∈ l, 0 ≤ c.2) (exclude t : Token) :
    unitUniform.real {u | samplingPickFromSupport l exclude u = t} *
        totalWeight (l.filter (fun c => c.1 ≠ exclude)) =
      if t = exclude then 0 else scatteredProbability l t := by
  have hkept : ∀ c ∈ l.filter (fun c => c.1 ≠ exclude), 0 ≤ c.2 :=
    fun c hc => hl c (mem_of_mem_filter hc)
  rw [← scattered_filter]
  rcases eq_or_lt_of_le (totalWeight_nonneg hkept) with hzero | hpos
  · rw [← hzero, mul_zero]
    refine le_antisymm (scattered_nonneg hkept t) ?_
    have hsum := sum_scattered (l.filter (fun c => c.1 ≠ exclude))
      (s := insert t ((l.filter (fun c => c.1 ≠ exclude)).map fst).toFinset)
      (fun c hc => Finset.mem_insert_of_mem
        (mem_toFinset.mpr (mem_map_of_mem hc)))
    rw [hzero, ← hsum]
    exact Finset.single_le_sum
      (fun t _ => scattered_nonneg hkept t) (Finset.mem_insert_self t _)
  · have hpick : ∀ u, samplingPickFromSupport l exclude u =
        inverseCdf (u * totalWeight (l.filter (fun c => c.1 ≠ exclude)))
          (l.filter (fun c => c.1 ≠ exclude)) 0 (-1) := by
      intro u
      unfold samplingPickFromSupport
      exact if_neg (not_le.mpr hpos)
    simp only [hpick]
    exact inverseCdf_law hkept hpos (-1) t

/-- The bonus has the target's law. -/
theorem Distribution.pick (hl : Distribution l) (t : Token) :
    unitUniform.real {u | samplingPickFromSupport l (-1) u = t} =
      listedProbability l t := by
  have hnone : scatteredProbability l (-1) = 0 := by
    refine scattered_of_notMem fun hmem => ?_
    obtain ⟨c, hc, heq⟩ := mem_map.mp hmem
    have hge : (0 : Int) ≤ c.1 := hl.token c hc
    rw [heq] at hge
    exact absurd hge (by decide)
  have hfilter := totalWeight_filter l (-1)
  rw [hnone, add_zero, hl.total] at hfilter
  have hlaw := pickFromSupport_law hl.nonneg (-1) t
  rw [hfilter, mul_one] at hlaw
  rw [hlaw, listed_eq_scattered hl.nodup]
  split
  · next ht => rw [ht, hnone]
  · rfl

/-- `sampling_pick_from_support` without a rejected draft, weighed by the
chance of rejecting it. -/
theorem Distribution.pickWithout (hl : Distribution l) (d t : Token) :
    (1 - listedProbability l d) *
        unitUniform.real {u | samplingPickFromSupport l d u = t} =
      if t = d then 0 else listedProbability l t := by
  have hfilter := totalWeight_filter l d
  rw [hl.total] at hfilter
  have hlaw := pickFromSupport_law hl.nonneg d t
  rw [listed_eq_scattered hl.nodup, listed_eq_scattered hl.nodup, ← hlaw,
    ← hfilter]
  ring

theorem Distribution.listed_nonneg (hl : Distribution l) (t : Token) :
    0 ≤ listedProbability l t := by
  rw [listed_eq_scattered hl.nodup]
  exact scattered_nonneg hl.nonneg t

theorem Distribution.listed_le_one (hl : Distribution l) (t : Token) :
    listedProbability l t ≤ 1 := by
  have hfilter := totalWeight_filter l t
  have hrest := totalWeight_nonneg (l := l.filter (fun c => c.1 ≠ t))
    (fun c hc => hl.nonneg c (mem_of_mem_filter hc))
  rw [listed_eq_scattered hl.nodup]
  rw [hl.total] at hfilter
  linarith

/-- The selector's pick has the law it lists. -/
theorem Listing.select (hs : Listing selector) (t : Token) :
    unitUniform.real {u | selectPick selector u = t} =
      listedProbability selector t := by
  have hlaw := inverseCdf_law hs.nonneg (by rw [hs.total]; exact one_pos) 0 t
  rw [hs.total, mul_one] at hlaw
  simp only [mul_one] at hlaw
  rw [hs.once, ← hlaw]
  rfl

theorem measurable_selectPick (selector : List (Token × ℝ)) (t : Token) :
    MeasurableSet {u | selectPick selector u = t} :=
  measurable_inverseCdf selector 0 0 t

/-- A pick is one of the listed tokens, or the default. -/
theorem inverseCdf_mem (goal : ℝ) (l : List (Token × ℝ)) :
    ∀ (acc : ℝ) (last : Token),
      inverseCdf goal l acc last ∈ last :: l.map fst := by
  induction l with
  | nil => intro acc last; exact .head _
  | cons c l ih =>
    intro acc last
    unfold inverseCdf
    split
    · simp
    · have := ih (acc + c.2) c.1
      exact .tail _ this

-- ============ the residual

/-- What the residual holds for a token. -/
theorem residual_scattered (hl : Distribution l) (hs : Listing selector)
    (t : Token) :
    scatteredProbability (residual l selector) t =
      max (listedProbability l t - listedProbability selector t) 0 := by
  have hmap : ∀ l : List (Token × ℝ), (l.map fst).Nodup →
      scatteredProbability (residual l selector) t =
        if t ∈ l.map fst then
          max (scatteredProbability l t - scatteredProbability selector t) 0
        else 0 := by
    intro l
    induction l with
    | nil => intro _; rfl
    | cons c l ih =>
      intro hnodup
      obtain ⟨hnot, hrest⟩ := nodup_cons.mp hnodup
      have hih := ih hrest
      unfold residual at hih ⊢
      rw [map_cons, scattered_cons, hih, scattered_cons]
      by_cases hc : c.1 = t
      · have hout : t ∉ l.map fst := hc ▸ hnot
        rw [if_pos hc, if_neg hout, if_pos hc, if_pos (by simp [hc]),
          scattered_of_notMem hout, add_zero, add_zero, hc]
      · rw [if_neg hc, if_neg hc, zero_add, zero_add]
        have hmem : t ∈ (c :: l).map fst ↔ t ∈ l.map fst := by
          simp [Ne.symm hc]
        simp only [hmem]
  rw [hmap l hl.nodup, listed_eq_scattered hl.nodup, hs.once]
  split
  · rfl
  · next hout =>
    rw [scattered_of_notMem hout]
    have := scattered_nonneg hs.nonneg t
    rw [max_eq_right (by linarith)]

theorem residual_nonneg (l selector : List (Token × ℝ)) :
    ∀ c ∈ residual l selector, 0 ≤ c.2 := by
  intro c hc
  obtain ⟨c', -, rfl⟩ := mem_map.mp hc
  exact le_max_right _ _

theorem measurable_pickResidual (l selector : List (Token × ℝ))
    (t : Token) : MeasurableSet {u | pickResidual l selector u = t} := by
  unfold pickResidual
  dsimp only
  split
  · exact measurable_pickFromSupport l (-1) t
  · exact measurable_mul_const _ (measurable_inverseCdf _ _ _ t)

/-- `pick_residual`, weighed by the mass of the residual. -/
theorem pickResidual_law (hl : Distribution l) (hs : Listing selector)
    (t : Token) :
    totalWeight (residual l selector) *
        unitUniform.real {u | pickResidual l selector u = t} =
      max (listedProbability l t - listedProbability selector t) 0 := by
  have hnonneg := residual_nonneg l selector
  rw [← residual_scattered hl hs]
  rcases eq_or_lt_of_le (totalWeight_nonneg hnonneg) with hzero | hpos
  · rw [← hzero, zero_mul]
    refine le_antisymm (scattered_nonneg hnonneg t) ?_
    rw [hzero, ← sum_scattered (residual l selector)
      (s := insert t ((residual l selector).map fst).toFinset)
      (fun c hc => Finset.mem_insert_of_mem
        (mem_toFinset.mpr (mem_map_of_mem hc)))]
    exact Finset.single_le_sum
      (fun t _ => scattered_nonneg hnonneg t) (Finset.mem_insert_self t _)
  · have hpick : ∀ u, pickResidual l selector u =
        inverseCdf (u * totalWeight (residual l selector))
          (residual l selector) 0 (l.headD (0, 0)).1 := by
      intro u
      unfold pickResidual
      exact if_neg (not_le.mpr hpos)
    simp only [hpick]
    rw [mul_comm]
    exact inverseCdf_law hnonneg hpos _ t

/-- The mass of the residual is the chance of a rejection: what the
selector proposes too often is what it proposes too rarely elsewhere. -/
theorem rejection_mass (hl : Distribution l) (hs : Listing selector)
    {s : Finset Token} (hmem : ∀ c ∈ selector, c.1 ∈ s) :
    ∑ d ∈ s, (listedProbability selector d -
        min (listedProbability l d) (listedProbability selector d)) =
      totalWeight (residual l selector) := by
  -- both sums, over all the tokens either side lists
  let all := s ∪ (l.map fst).toFinset
  have hall : ∀ c ∈ l, c.1 ∈ all := fun c hc =>
    Finset.mem_union_right _ (mem_toFinset.mpr (mem_map_of_mem hc))
  have hselector : ∀ c ∈ selector, c.1 ∈ all := fun c hc =>
    Finset.mem_union_left _ (hmem c hc)
  have hleft : ∑ d ∈ s, (listedProbability selector d -
      min (listedProbability l d) (listedProbability selector d)) =
      ∑ d ∈ all, (listedProbability selector d -
        min (listedProbability l d) (listedProbability selector d)) := by
    refine Finset.sum_subset Finset.subset_union_left fun d _ hd => ?_
    have hzero : listedProbability selector d = 0 := by
      rw [hs.once]
      refine scattered_of_notMem fun hin => hd ?_
      obtain ⟨c, hc, rfl⟩ := mem_map.mp hin
      exact hmem c hc
    rw [hzero, min_eq_right (hl.listed_nonneg d), sub_zero]
  have hresidual : ∀ c ∈ residual l selector, c.1 ∈ all := by
    intro c hc
    obtain ⟨c', hc', rfl⟩ := mem_map.mp hc
    exact hall c' hc'
  have hp : ∑ d ∈ all, listedProbability l d = 1 := by
    rw [Finset.sum_congr rfl (fun d _ => listed_eq_scattered hl.nodup d),
      sum_scattered l hall, hl.total]
  have hq : ∑ d ∈ all, listedProbability selector d = 1 := by
    rw [Finset.sum_congr rfl (fun d _ => hs.once d),
      sum_scattered selector hselector, hs.total]
  have hterm : ∀ d ∈ all, scatteredProbability (residual l selector) d =
      listedProbability l d -
        min (listedProbability l d) (listedProbability selector d) := by
    intro d _
    rw [residual_scattered hl hs]
    rcases le_total (listedProbability l d)
      (listedProbability selector d) with h | h
    · rw [min_eq_left h, max_eq_right (by linarith), sub_self]
    · rw [min_eq_right h, max_eq_left (by linarith)]
  rw [hleft, ← sum_scattered _ hresidual, Finset.sum_congr rfl hterm,
    Finset.sum_sub_distrib, Finset.sum_sub_distrib, hp, hq]

end Ginfer.Ops
