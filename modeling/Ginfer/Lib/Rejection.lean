/-
Rejection sampling along a chain of columns.

A sampler proposes a token at each column, keeps it when a fresh uniform
number falls in its acceptance set, and otherwise stops with a correction;
past the last column it adds a bonus. Its random numbers are independent
and uniform on [0, 1), one for each column and use (`Draw`).

`Faithful p` says what a sampler owes at one column: the probability of
keeping a token and that of correcting to it add up to the target's
`p`. From it follows, for every number of columns,

- `strict_prefix` — the law of the proposals kept so far;
- `next_token` — given the tokens before it, the next token of the chain
  has the target's law;
- `completed` — the tokens of the chain, completed by tokens drawn from
  the target one at a time, have the law of tokens drawn one at a time.

The proofs intersect boxes: an event about the columns before `c` is a
product of sets of uniforms (`Box`), and a fresh uniform splits off as a
factor (`Box.inter`).
-/
import Mathlib.Probability.Independence.InfinitePi

namespace Ginfer.Lib

open MeasureTheory Function Finset
open List hiding Disjoint

-- ============ uniforms

/-- The uniform law on [0, 1). -/
noncomputable def unitUniform : Measure ℝ := volume.restrict (Set.Ico 0 1)

instance : IsProbabilityMeasure unitUniform := ⟨by simp [unitUniform]⟩

/-- Independent uniforms, one for each key. -/
noncomputable def uniforms (ι : Type) : Measure (ι → ℝ) :=
  Measure.infinitePi (fun _ => unitUniform)

instance (ι : Type) : IsProbabilityMeasure (uniforms ι) := by
  unfold uniforms
  infer_instance

/-- Only the part of a set inside [0, 1) counts. -/
theorem unitUniform_real {s : Set ℝ} :
    unitUniform.real s = volume.real (s ∩ Set.Ico 0 1) := by
  rw [Measure.real, Measure.real, unitUniform,
    Measure.restrict_apply' measurableSet_Ico]

/-- The chance of falling below `p`. -/
theorem unitUniform_lt {p : ℝ} (hp : 0 ≤ p) :
    unitUniform.real {u | u < p} = min p 1 := by
  have hset : {u | u < p} ∩ Set.Ico 0 1 = Set.Ico 0 (min p 1) := by
    ext u
    simp only [Set.mem_inter_iff, Set.mem_ofPred_eq, Set.mem_Ico, lt_min_iff]
    tauto
  rw [unitUniform_real, hset, Real.volume_real_Ico, sub_zero]
  exact max_eq_left (le_min hp zero_le_one)

/-- Reading the uniforms at other keys. -/
theorem uniforms_map {ι κ : Type} {key : κ → ι} (hkey : Injective key) :
    (uniforms ι).map (fun ω k => ω (key k)) = uniforms κ :=
  Measure.map_infinitePi_infinitePi_of_inj (P := fun _ : ι => unitUniform) hkey

-- ============ boxes

variable {ι : Type}

/-- A product of measurable sets over the keys `s`. -/
def Box (s : Finset ι) (B : Set (ι → ℝ)) : Prop :=
  ∃ t : ι → Set ℝ, (∀ i ∈ s, MeasurableSet (t i)) ∧ B = Set.pi s t

theorem Box.univ : Box ∅ (Set.univ : Set (ι → ℝ)) :=
  ⟨fun _ => Set.univ, by simp, by simp⟩

/-- A fresh uniform is a factor. -/
theorem Box.inter [DecidableEq ι] {s : Finset ι} {B : Set (ι → ℝ)}
    (hB : Box s B) {k : ι} (hk : k ∉ s) {A : Set ℝ} (hA : MeasurableSet A) :
    Box (insert k s) (B ∩ {ω | ω k ∈ A}) ∧
    (uniforms ι).real (B ∩ {ω | ω k ∈ A}) =
      (uniforms ι).real B * unitUniform.real A := by
  obtain ⟨t, ht, rfl⟩ := hB
  have hne : ∀ i ∈ s, i ≠ k := fun i hi h => hk (h ▸ hi)
  have hmeasurable : ∀ i ∈ insert k s,
      MeasurableSet (update t k A i) := by
    intro i hi
    rcases mem_insert.mp hi with rfl | hi
    · rwa [update_self]
    · rw [update_of_ne (hne i hi)]
      exact ht i hi
  have hset : Set.pi s t ∩ {ω | ω k ∈ A} =
      Set.pi (insert k s : Finset ι) (update t k A) := by
    ext ω
    simp only [Set.mem_inter_iff, Set.mem_pi, mem_coe,
      Set.mem_ofPred_eq, mem_insert, forall_eq_or_imp,
      update_self]
    refine ⟨fun ⟨hs, hin⟩ => ⟨hin, fun i hi => ?_⟩,
      fun ⟨hin, hs⟩ => ⟨fun i hi => ?_, hin⟩⟩
    · rw [update_of_ne (hne i hi)]
      exact hs i hi
    · have := hs i hi
      rwa [update_of_ne (hne i hi)] at this
  refine ⟨⟨_, hmeasurable, hset⟩, ?_⟩
  have hproduct : ∀ i ∈ s, unitUniform (update t k A i) =
      unitUniform (t i) := by
    intro i hi
    rw [update_of_ne (hne i hi)]
  rw [hset, Measure.real, Measure.real, Measure.real, uniforms,
    Measure.infinitePi_pi _ hmeasurable, Measure.infinitePi_pi _ ht,
    prod_insert hk, prod_congr rfl hproduct,
    update_self, ENNReal.toReal_mul, mul_comm]

theorem Box.measurable {s : Finset ι} {B : Set (ι → ℝ)} (hB : Box s B) :
    MeasurableSet B := by
  obtain ⟨t, ht, rfl⟩ := hB
  exact MeasurableSet.pi s.countable_toSet ht

-- ============ the sampler

/-- The uses of a column's uniforms. -/
inductive Draw where
  | select
  | accept
  | correct
  | bonus
deriving DecidableEq

/-- One column of a sampler, after the tokens kept so far. -/
structure RejectionSampler (T : Type) where
  draft : List T → ℝ → T
  accept : List T → T → Set ℝ
  correct : List T → T → ℝ → T
  bonus : List T → ℝ → T

/-- The random numbers of a chain, by column and use. -/
abbrev Draws := ℕ × Draw → ℝ

namespace RejectionSampler

variable {T : Type}

open Classical in
/-- The tokens of a chain with `left` columns to go, after `w`. -/
noncomputable def tokens (S : RejectionSampler T) (ω : Draws) :
    ℕ → ℕ → List T → List T
  | 0, c, w => w ++ [S.bonus w (ω (c, .bonus))]
  | left + 1, c, w =>
    let d := S.draft w (ω (c, .select))
    if ω (c, .accept) ∈ S.accept w d then
      S.tokens ω left (c + 1) (w ++ [d])
    else w ++ [S.correct w d (ω (c, .correct))]

/-- The chance that a column proposes `x` and keeps it. -/
noncomputable def kept (S : RejectionSampler T) (w : List T) (x : T) : ℝ :=
  unitUniform.real {u | S.draft w u = x} * unitUniform.real (S.accept w x)

/-- What a column owes the target `p`. `drafts w` holds every token the
column can propose. -/
structure Faithful (S : RejectionSampler T) (p : List T → T → ℝ)
    (drafts : List T → Finset T) : Prop where
  measurable_draft : ∀ w x, MeasurableSet {u | S.draft w u = x}
  measurable_accept : ∀ w x, MeasurableSet (S.accept w x)
  measurable_correct : ∀ w d x, MeasurableSet {u | S.correct w d u = x}
  measurable_bonus : ∀ w x, MeasurableSet {u | S.bonus w u = x}
  draft_mem : ∀ w u, S.draft w u ∈ drafts w
  column : ∀ w x,
    S.kept w x + ∑ d ∈ drafts w,
      unitUniform.real {u | S.draft w u = d} * unitUniform.real (S.accept w d)ᶜ *
        unitUniform.real {u | S.correct w d u = x} = p w x
  bonus : ∀ w x, unitUniform.real {u | S.bonus w u = x} = p w x

/-- A product along a sequence of tokens, each after the ones before. -/
def chainProd (g : List T → T → ℝ) : List T → List T → ℝ
  | _, [] => 1
  | w, x :: rest => g w x * chainProd g (w ++ [x]) rest

variable (S : RejectionSampler T)

/-- The chain extends the tokens it starts from. -/
theorem tokens_extends (ω : Draws) : ∀ left c w,
    w <+: S.tokens ω left c w ∧ w.length < (S.tokens ω left c w).length := by
  intro left
  induction left with
  | zero => intro c w; simp [tokens]
  | succ left ih =>
    intro c w
    unfold tokens
    dsimp only
    split
    · obtain ⟨hpre, hlength⟩ := ih (c + 1) (w ++ [S.draft w (ω (c, .select))])
      refine ⟨(prefix_append _ _).trans hpre, ?_⟩
      rw [length_append, length_singleton] at hlength
      omega
    · simp

/-- The chain has at most one token more than columns. -/
theorem tokens_length_le (ω : Draws) : ∀ left c w,
    (S.tokens ω left c w).length ≤ w.length + left + 1 := by
  intro left
  induction left with
  | zero => intro c w; simp [tokens]
  | succ left ih =>
    intro c w
    unfold tokens
    dsimp only
    split
    · have := ih (c + 1) (w ++ [S.draft w (ω (c, .select))])
      rw [length_append, length_singleton] at this
      omega
    · simp

-- ============ its events

variable {ω : Draws} {left c : ℕ} {w : List T}

/-- The proposal of a kept column is the next token of the chain. -/
theorem tokens_kept
    (hkeep : ω (c, .accept) ∈ S.accept w (S.draft w (ω (c, .select)))) :
    S.tokens ω (left + 1) c w =
      S.tokens ω left (c + 1) (w ++ [S.draft w (ω (c, .select))]) := by
  rw [tokens]
  exact if_pos hkeep

/-- A column that is not kept ends the chain. -/
theorem tokens_corrected
    (hstop : ω (c, .accept) ∉ S.accept w (S.draft w (ω (c, .select)))) :
    S.tokens ω (left + 1) c w =
      w ++ [S.correct w (S.draft w (ω (c, .select)))
        (ω (c, .correct))] := by
  rw [tokens]
  exact if_neg hstop

/-- Two one-token extensions below the same list are the same. -/
theorem head_eq {y : List T} {a b : T} (ha : w ++ [a] <+: y)
    (hb : w ++ [b] <+: y) : a = b := by
  have h := prefix_of_prefix_length_le ha hb (by simp)
  have heq := h.eq_of_length (by simp)
  simpa using heq

variable {rest : List T} {d : T}

theorem prefix_cons_iff {y : List T} :
    w ++ d :: rest <+: y ↔ (w ++ [d]) ++ rest <+: y := by simp

/-- The tokens `w ++ x` have been kept and the chain goes on. -/
def Going (ω : Draws) (left c : ℕ) (w x : List T) : Prop :=
  w ++ x <+: S.tokens ω left c w ∧ (w ++ x).length < (S.tokens ω left c w).length

theorem going_nil (ω : Draws) (left c : ℕ) (w : List T) :
    S.Going ω left c w [] := by
  simpa [Going] using S.tokens_extends ω left c w

/-- Keeping one token more: the column proposes it, keeps it, and the
rest of the chain goes on. -/
theorem going_cons :
    S.Going ω (left + 1) c w (d :: rest) ↔
      (S.draft w (ω (c, .select)) = d ∧ ω (c, .accept) ∈ S.accept w d) ∧
        S.Going ω left (c + 1) (w ++ [d]) rest := by
  constructor
  · rintro ⟨hpre, hlength⟩
    by_cases hkeep : ω (c, .accept) ∈ S.accept w (S.draft w (ω (c, .select)))
    · rw [S.tokens_kept hkeep] at hpre hlength
      have hd : S.draft w (ω (c, .select)) = d :=
        head_eq (S.tokens_extends ω left (c + 1) _).1
          ((prefix_append _ _).trans (prefix_cons_iff.mp hpre))
      rw [hd] at hkeep hpre hlength
      exact ⟨⟨hd, hkeep⟩, prefix_cons_iff.mp hpre, by simpa using hlength⟩
    · rw [S.tokens_corrected hkeep] at hlength
      simp at hlength
  · rintro ⟨⟨rfl, hkeep⟩, hpre, hlength⟩
    refine ⟨?_, ?_⟩ <;> rw [S.tokens_kept hkeep]
    · exact prefix_cons_iff.mpr hpre
    · simpa using hlength

/-- The same for a longer prefix of the chain. -/
theorem prefix_cons {t : T} :
    w ++ (d :: rest) ++ [t] <+: S.tokens ω (left + 1) c w ↔
      (S.draft w (ω (c, .select)) = d ∧ ω (c, .accept) ∈ S.accept w d) ∧
        (w ++ [d]) ++ rest ++ [t] <+:
        S.tokens ω left (c + 1) (w ++ [d]) := by
  have hlists : w ++ (d :: rest) ++ [t] = (w ++ [d]) ++ rest ++ [t] := by
    simp
  rw [hlists]
  constructor
  · intro hpre
    have hgoing : S.Going ω (left + 1) c w (d :: rest) := by
      refine ⟨?_, ?_⟩
      · exact prefix_cons_iff.mpr ((prefix_append _ _).trans hpre)
      · have := hpre.length_le
        simp only [length_append, length_cons, length_nil] at this ⊢
        omega
    obtain ⟨hcolumn, -⟩ := S.going_cons.mp hgoing
    obtain ⟨rfl, hkeep⟩ := hcolumn
    rw [S.tokens_kept hkeep] at hpre
    exact ⟨⟨rfl, hkeep⟩, hpre⟩
  · rintro ⟨⟨rfl, hkeep⟩, hpre⟩
    rwa [S.tokens_kept hkeep]

/-- The first token of a chain with columns left: the proposal where it
is kept, the correction where it is not. -/
theorem prefix_first {t : T} :
    w ++ [t] <+: S.tokens ω (left + 1) c w ↔
      (S.draft w (ω (c, .select)) = t ∧ ω (c, .accept) ∈ S.accept w t) ∨
        ∃ d, (S.draft w (ω (c, .select)) = d ∧ ω (c, .accept) ∉ S.accept w d) ∧
        S.correct w d (ω (c, .correct)) = t := by
  by_cases hkeep : ω (c, .accept) ∈ S.accept w (S.draft w (ω (c, .select)))
  · rw [S.tokens_kept hkeep]
    constructor
    · intro hpre
      have ht := head_eq (S.tokens_extends ω left (c + 1) _).1 hpre
      exact .inl ⟨ht, ht ▸ hkeep⟩
    · rintro (⟨rfl, -⟩ | ⟨d, ⟨rfl, hstop⟩, -⟩)
      · exact (S.tokens_extends ω left (c + 1) _).1
      · exact absurd hkeep hstop
  · rw [S.tokens_corrected hkeep]
    constructor
    · intro hpre
      exact .inr ⟨_, ⟨rfl, hkeep⟩, (head_eq hpre (prefix_refl _)).symm⟩
    · rintro (⟨rfl, hstop⟩ | ⟨d, ⟨rfl, -⟩, rfl⟩)
      · exact absurd hstop hkeep
      · exact prefix_refl _

-- ============ their law

variable {S} {p : List T → T → ℝ} {drafts : List T → Finset T} {s : Finset (ℕ × Draw)}

/-- A column that proposes `d` and keeps it, after a past event. -/
theorem Faithful.box_kept (hS : S.Faithful p drafts)
    {B : Set Draws} (hB : Box s B)
    (hpast : ∀ k ∈ s, k.1 < c) (w : List T) (d : T) :
    Box (insert (c, .accept) (insert (c, .select) s))
      (B ∩ {ω | ω (c, .select) ∈ {u | S.draft w u = d}} ∩
        {ω | ω (c, .accept) ∈ S.accept w d}) ∧
    (uniforms (ℕ × Draw)).real
      (B ∩ {ω | ω (c, .select) ∈ {u | S.draft w u = d}} ∩
        {ω | ω (c, .accept) ∈ S.accept w d}) =
      (uniforms (ℕ × Draw)).real B * S.kept w d := by
  have hfresh : ∀ use, (c, use) ∉ s :=
    fun use hmem => absurd (hpast _ hmem) (lt_irrefl c)
  obtain ⟨hselect, hselect'⟩ := hB.inter (hfresh .select)
    (hS.measurable_draft w d)
  have hnew : (c, Draw.accept) ∉ insert (c, Draw.select) s := by
    simp [hfresh]
  obtain ⟨haccept, haccept'⟩ := hselect.inter hnew (hS.measurable_accept w d)
  refine ⟨haccept, ?_⟩
  rw [haccept', hselect', mul_assoc]
  rfl

/-- The keys of a column are past for the next one. -/
theorem past_succ (hpast : ∀ k ∈ s, k.1 < c) :
    ∀ k ∈ insert (c, Draw.accept) (insert (c, Draw.select) s),
      k.1 < c + 1 := by
  intro k hk
  simp only [mem_insert] at hk
  rcases hk with rfl | rfl | hk
  · exact Nat.lt_succ_self c
  · exact Nat.lt_succ_self c
  · exact Nat.lt_succ_of_lt (hpast k hk)

/-- The law of the proposals kept so far, after a past event. -/
theorem Faithful.going (hS : S.Faithful p drafts) :
    ∀ (x : List T) (left c : ℕ) (w : List T) (s : Finset (ℕ × Draw))
      (B : Set Draws), x.length ≤ left → Box s B → (∀ k ∈ s, k.1 < c) →
      MeasurableSet (B ∩ {ω | S.Going ω left c w x}) ∧
      (uniforms (ℕ × Draw)).real (B ∩ {ω | S.Going ω left c w x}) =
        (uniforms (ℕ × Draw)).real B * chainProd S.kept w x := by
  intro x
  induction x with
  | nil =>
    intro left c w s B _ hB _
    have hall : {ω : Draws | S.Going ω left c w []} = Set.univ :=
      Set.eq_univ_of_forall fun ω => S.going_nil ω left c w
    rw [hall, Set.inter_univ, chainProd, mul_one]
    exact ⟨hB.measurable, rfl⟩
  | cons d rest ih =>
    intro left c w s B hleft hB hpast
    obtain ⟨left, rfl⟩ : ∃ l, left = l + 1 :=
      Nat.exists_eq_succ_of_ne_zero (by
        rw [length_cons] at hleft
        omega)
    obtain ⟨hbox, hreal⟩ := hS.box_kept hB hpast w d
    have hset : B ∩ {ω | S.Going ω (left + 1) c w (d :: rest)} =
        (B ∩ {ω | ω (c, .select) ∈ {u | S.draft w u = d}} ∩
          {ω | ω (c, .accept) ∈ S.accept w d}) ∩
          {ω | S.Going ω left (c + 1) (w ++ [d]) rest} := by
      ext ω
      simp only [Set.mem_inter_iff, Set.mem_ofPred_eq, S.going_cons]
      tauto
    obtain ⟨hmeasurable, hrest⟩ := ih left (c + 1) (w ++ [d]) _ _
      (by simpa using hleft) hbox (past_succ hpast)
    rw [hset, chainProd, ← mul_assoc, ← hreal]
    exact ⟨hmeasurable, hrest⟩

/-- The first token after a past event has the target's law. -/
theorem Faithful.first (hS : S.Faithful p drafts) (left c : ℕ)
    (w : List T) (t : T) {B : Set Draws}
    (hB : Box s B) (hpast : ∀ k ∈ s, k.1 < c) :
    (uniforms (ℕ × Draw)).real (B ∩ {ω | w ++ [t] <+: S.tokens ω left c w}) =
      (uniforms (ℕ × Draw)).real B * p w t := by
  have hfresh : ∀ use, (c, use) ∉ s :=
    fun use hmem => absurd (hpast _ hmem) (lt_irrefl c)
  cases left with
  | zero =>
    have hset : {ω : Draws | w ++ [t] <+: S.tokens ω 0 c w} =
        {ω | ω (c, .bonus) ∈ {u | S.bonus w u = t}} := by
      ext ω
      simp only [Set.mem_ofPred_eq, tokens]
      constructor
      · intro h
        exact (head_eq h (prefix_refl _)).symm
      · rintro rfl
        exact prefix_refl _
    rw [hset, (hB.inter (hfresh .bonus) (hS.measurable_bonus w t)).2, hS.bonus]
  | succ left =>
    -- the proposal kept, or for each proposal its correction
    let keptSet : Set Draws :=
      B ∩ {ω | ω (c, .select) ∈ {u | S.draft w u = t}} ∩
        {ω | ω (c, .accept) ∈ S.accept w t}
    let corrected : T → Set Draws := fun d =>
      B ∩ {ω | ω (c, .select) ∈ {u | S.draft w u = d}} ∩
        {ω | ω (c, .accept) ∈ (S.accept w d)ᶜ} ∩
        {ω | ω (c, .correct) ∈ {u | S.correct w d u = t}}
    have hcorrected : ∀ d, MeasurableSet (corrected d) ∧
        (uniforms (ℕ × Draw)).real (corrected d) =
          (uniforms (ℕ × Draw)).real B *
            (unitUniform.real {u | S.draft w u = d} *
              unitUniform.real (S.accept w d)ᶜ *
              unitUniform.real {u | S.correct w d u = t}) := by
      intro d
      obtain ⟨hselect, hselect'⟩ := hB.inter (hfresh .select)
        (hS.measurable_draft w d)
      obtain ⟨haccept, haccept'⟩ := hselect.inter
        (k := (c, Draw.accept)) (by simp [hfresh])
        (hS.measurable_accept w d).compl
      obtain ⟨hcorrect, hcorrect'⟩ := haccept.inter
        (k := (c, Draw.correct)) (by simp [hfresh])
        (hS.measurable_correct w d t)
      refine ⟨hcorrect.measurable, ?_⟩
      show (uniforms (ℕ × Draw)).real (_ ∩ _) = _
      rw [hcorrect', haccept', hselect']
      ring
    have hset : B ∩ {ω | w ++ [t] <+: S.tokens ω (left + 1) c w} =
        keptSet ∪ ⋃ d ∈ drafts w, corrected d := by
      ext ω
      simp only [Set.mem_inter_iff, Set.mem_ofPred_eq, S.prefix_first,
        Set.mem_union, Set.mem_iUnion, Set.mem_compl_iff, keptSet,
        corrected, exists_prop]
      constructor
      · rintro ⟨hin, ⟨hd, hkeep⟩ | ⟨d, ⟨hd, hstop⟩, hcorrect⟩⟩
        · exact .inl ⟨⟨hin, hd⟩, hkeep⟩
        · exact .inr ⟨d, hd ▸ hS.draft_mem w _, ⟨⟨hin, hd⟩, hstop⟩, hcorrect⟩
      · rintro (⟨⟨hin, hd⟩, hkeep⟩ |
          ⟨d, -, ⟨⟨hin, hd⟩, hstop⟩, hcorrect⟩)
        · exact ⟨hin, .inl ⟨hd, hkeep⟩⟩
        · exact ⟨hin, .inr ⟨d, ⟨hd, hstop⟩, hcorrect⟩⟩
    have hpairwise : Set.Pairwise (drafts w : Set T)
        (onFun Disjoint corrected) := by
      intro d _ d' _ hne
      refine Set.disjoint_left.mpr fun ω h h' => hne ?_
      exact h.1.1.2.symm.trans h'.1.1.2
    have hdisjoint : Disjoint keptSet (⋃ d ∈ drafts w, corrected d) := by
      refine Set.disjoint_left.mpr fun ω h h' => ?_
      simp only [Set.mem_iUnion] at h'
      obtain ⟨d, -, hd⟩ := h'
      have heq : t = d := h.1.2.symm.trans hd.1.1.2
      exact hd.1.2 (heq ▸ h.2)
    rw [hset, measureReal_union hdisjoint
      (measurableSet_biUnion _ fun d _ => (hcorrected d).1)
      (measure_ne_top _ _) (measure_ne_top _ _),
      measureReal_biUnion_finset hpairwise (fun d _ => (hcorrected d).1),
      (hS.box_kept hB hpast w t).2,
      sum_congr rfl (fun d _ => (hcorrected d).2),
      ← mul_sum, ← mul_add, hS.column]

/-- A prefix of the chain, after a past event. -/
theorem Faithful.prefix_law (hS : S.Faithful p drafts) (t : T) :
    ∀ (x : List T) (left c : ℕ) (w : List T) (s : Finset (ℕ × Draw))
      (B : Set Draws), x.length ≤ left → Box s B → (∀ k ∈ s, k.1 < c) →
      (uniforms (ℕ × Draw)).real
        (B ∩ {ω | w ++ x ++ [t] <+: S.tokens ω left c w}) =
        (uniforms (ℕ × Draw)).real B * chainProd S.kept w x *
        p (w ++ x) t := by
  intro x
  induction x with
  | nil =>
    intro left c w s B _ hB hpast
    simp only [append_nil, chainProd, mul_one]
    exact hS.first left c w t hB hpast
  | cons d rest ih =>
    intro left c w s B hleft hB hpast
    obtain ⟨left, rfl⟩ : ∃ l, left = l + 1 :=
      Nat.exists_eq_succ_of_ne_zero (by
        rw [length_cons] at hleft
        omega)
    obtain ⟨hbox, hreal⟩ := hS.box_kept hB hpast w d
    have hset :
        B ∩ {ω | w ++ (d :: rest) ++ [t] <+: S.tokens ω (left + 1) c w} =
        (B ∩ {ω | ω (c, .select) ∈ {u | S.draft w u = d}} ∩
          {ω | ω (c, .accept) ∈ S.accept w d}) ∩
          {ω | (w ++ [d]) ++ rest ++ [t] <+:
            S.tokens ω left (c + 1) (w ++ [d])} := by
      ext ω
      simp only [Set.mem_inter_iff, Set.mem_ofPred_eq, S.prefix_cons]
      tauto
    rw [hset, ih left (c + 1) (w ++ [d]) _ _ (by simpa using hleft) hbox
      (past_succ hpast), hreal, chainProd, mul_assoc _ (S.kept w d)]
    simp only [append_assoc, cons_append, nil_append]

-- ============ the whole chain

/-- The chance of an event of a chain of `n` columns. -/
noncomputable def chance (S : RejectionSampler T) (n : ℕ)
    (event : List T → Prop) : ℝ :=
  (uniforms (ℕ × Draw)).real {ω | event (S.tokens ω n 0 [])}

/-- The tokens of a chain are random variables. -/
theorem Faithful.measurable_tokens (hS : S.Faithful p drafts)
    (y : List T) : ∀ (left c : ℕ) (w : List T),
      MeasurableSet {ω | S.tokens ω left c w = y} := by
  have hread : ∀ (k : ℕ × Draw) {A : Set ℝ}, MeasurableSet A →
      MeasurableSet (Set.preimage (fun ω : Draws => ω k) A) :=
    fun k A hA => measurable_pi_apply k hA
  -- a draw's value, read at its key, appended to the tokens before
  have hlast : ∀ {value : ℝ → T} (k : ℕ × Draw) (w : List T),
      (∀ x, MeasurableSet {u | value u = x}) →
      MeasurableSet {ω : Draws | w ++ [value (ω k)] = y} := by
    intro value k w hvalue
    by_cases hy : ∃ x, w ++ [x] = y
    · obtain ⟨x, rfl⟩ := hy
      have hset : {ω : Draws | w ++ [value (ω k)] = w ++ [x]} =
          Set.preimage (fun ω => ω k) {u | value u = x} := by
        ext ω
        simp
      rw [hset]
      exact hread k (hvalue x)
    · have hset : {ω : Draws | w ++ [value (ω k)] = y} = ∅ :=
        Set.eq_empty_of_forall_notMem fun ω h => hy ⟨_, h⟩
      rw [hset]
      exact MeasurableSet.empty
  intro left
  induction left with
  | zero =>
    intro c w
    exact hlast (c, .bonus) w (hS.measurable_bonus w)
  | succ left ih =>
    intro c w
    have hset : {ω | S.tokens ω (left + 1) c w = y} =
        ⋃ d ∈ drafts w,
          Set.preimage (fun ω : Draws => ω (c, .select)) {u | S.draft w u = d} ∩
            ((Set.preimage (fun ω : Draws => ω (c, .accept)) (S.accept w d) ∩
              {ω | S.tokens ω left (c + 1) (w ++ [d]) = y}) ∪
            (Set.preimage (fun ω : Draws => ω (c, .accept)) (S.accept w d)ᶜ ∩
              {ω | w ++ [S.correct w d (ω (c, .correct))] = y})) := by
      ext ω
      simp only [Set.mem_ofPred_eq, Set.mem_iUnion, Set.mem_inter_iff,
        Set.mem_union, Set.mem_preimage, Set.mem_compl_iff, exists_prop]
      by_cases hkeep : ω (c, .accept) ∈ S.accept w (S.draft w (ω (c, .select)))
      · rw [S.tokens_kept hkeep]
        constructor
        · intro h
          exact ⟨_, hS.draft_mem w _, rfl, .inl ⟨hkeep, h⟩⟩
        · rintro ⟨d, -, rfl, ⟨-, h⟩ | ⟨hstop, -⟩⟩
          · exact h
          · exact absurd hkeep hstop
      · rw [S.tokens_corrected hkeep]
        constructor
        · intro h
          exact ⟨_, hS.draft_mem w _, rfl, .inr ⟨hkeep, h⟩⟩
        · rintro ⟨d, -, rfl, ⟨hin, -⟩ | ⟨-, h⟩⟩
          · exact absurd hin hkeep
          · exact h
    rw [hset]
    refine measurableSet_biUnion _ fun d _ => ?_
    refine (hread _ (hS.measurable_draft w d)).inter ?_
    refine ((hread _ (hS.measurable_accept w d)).inter (ih _ _)).union ?_
    exact (hread _ (hS.measurable_accept w d).compl).inter
      (hlast (c, .correct) w (hS.measurable_correct w d))

/-- A chain may read its random numbers at any keys of its own. -/
theorem Faithful.chance_of_keys [Countable T] {ι : Type}
    (hS : S.Faithful p drafts) {key : ℕ × Draw → ι}
    (hkey : Injective key) (n : ℕ) (event : List T → Prop) :
    (uniforms ι).real {u | event (S.tokens (fun k => u (key k)) n 0 [])} =
      S.chance n event := by
  have hmeasurable : MeasurableSet
      {ω | event (S.tokens ω n 0 [])} := by
    have hset : {ω | event (S.tokens ω n 0 [])} =
        ⋃ y ∈ {y | event y}, {ω | S.tokens ω n 0 [] = y} := by
      ext ω
      simp
    rw [hset]
    exact MeasurableSet.biUnion (Set.to_countable _)
      fun y _ => hS.measurable_tokens y n 0 []
  have hread : Measurable (fun (u : ι → ℝ) (k : ℕ × Draw) => u (key k)) :=
    measurable_pi_lambda _ fun k => measurable_pi_apply (key k)
  unfold chance
  rw [Measure.real, Measure.real, ← uniforms_map hkey,
    Measure.map_apply hread hmeasurable]
  rfl

variable {n : ℕ} {x : List T}

variable (hS : S.Faithful p drafts)

include hS

/-- The law of the proposals kept so far. -/
theorem Faithful.strict_prefix (hx : x.length ≤ n) :
    S.chance n (fun y => x <+: y ∧ x.length < y.length) =
      chainProd S.kept [] x := by
  have h := (hS.going x n 0 [] ∅ Set.univ hx Box.univ (by simp)).2
  rw [Set.univ_inter, probReal_univ, one_mul] at h
  simpa only [chance, Going, nil_append] using h

theorem Faithful.prefix_succ (hx : x.length ≤ n) (t : T) :
    S.chance n (fun y => x ++ [t] <+: y) =
      chainProd S.kept [] x * p x t := by
  have h := hS.prefix_law t x n 0 [] ∅ Set.univ hx Box.univ (by simp)
  rw [Set.univ_inter, probReal_univ, one_mul] at h
  simpa only [chance, nil_append] using h

/-- Given the tokens before it, the next token of the chain has the
target's law. -/
theorem Faithful.next_token (hx : x.length ≤ n) (t : T) :
    S.chance n (fun y => x ++ [t] <+: y) =
      S.chance n (fun y => x <+: y ∧ x.length < y.length) * p x t := by
  rw [hS.prefix_succ hx, hS.strict_prefix hx]

/-- The chance that the chain ends with exactly these tokens, before its
last column. -/
theorem Faithful.exactly (hx : x.length < n) (t : T) :
    S.chance n (fun y => y = x ++ [t]) =
      chainProd S.kept [] x * p x t - chainProd S.kept [] (x ++ [t]) := by
  have hlength : (x ++ [t]).length ≤ n := by
    rw [length_append, length_singleton]
    exact hx
  have hmeasurable :
      MeasurableSet {ω | S.Going ω n 0 [] (x ++ [t])} := by
    have := (hS.going (x ++ [t]) n 0 [] ∅ Set.univ hlength Box.univ (by simp)).1
    rwa [Set.univ_inter] at this
  have hset : {ω | x ++ [t] <+: S.tokens ω n 0 []} =
      {ω | S.tokens ω n 0 [] = x ++ [t]} ∪
        {ω | S.Going ω n 0 [] (x ++ [t])} := by
    ext ω
    simp only [Set.mem_ofPred_eq, Set.mem_union, Going, nil_append]
    constructor
    · intro hpre
      rcases Nat.eq_or_lt_of_le hpre.length_le with heq | hlt
      · exact .inl (hpre.eq_of_length heq).symm
      · exact .inr ⟨hpre, hlt⟩
    · rintro (heq | ⟨hpre, -⟩)
      · exact heq ▸ prefix_refl _
      · exact hpre
  have hdisjoint : Disjoint {ω | S.tokens ω n 0 [] = x ++ [t]}
      {ω | S.Going ω n 0 [] (x ++ [t])} := by
    refine Set.disjoint_left.mpr fun ω heq hgoing => ?_
    have hlt := hgoing.2
    rw [show S.tokens ω n 0 [] = x ++ [t] from heq] at hlt
    exact absurd hlt (lt_irrefl _)
  have hsum : (uniforms (ℕ × Draw)).real _ = _ :=
    measureReal_union hdisjoint hmeasurable
  rw [← hset] at hsum
  have hpre := hS.prefix_succ (le_of_lt hx) t
  have hstrict := hS.strict_prefix hlength
  simp only [chance] at hpre hstrict ⊢
  simp only [Going, nil_append] at hsum
  linarith

/-- The chance that the chain runs through all its columns. -/
theorem Faithful.exactly_last (hx : x.length = n) (t : T) :
    S.chance n (fun y => y = x ++ [t]) = chainProd S.kept [] x * p x t := by
  rw [← hS.prefix_succ (le_of_eq hx) t]
  unfold chance
  congr 1
  ext ω
  simp only [Set.mem_ofPred_eq]
  constructor
  · intro heq
    exact heq ▸ prefix_refl _
  · intro hpre
    have hle := S.tokens_length_le ω n 0 []
    refine (hpre.eq_of_length_le ?_).symm
    simp only [length_append, length_singleton, length_nil] at hle ⊢
    omega

/-- The tokens of the chain, completed by tokens drawn from the target
one at a time, have the law of tokens drawn one at a time. -/
theorem Faithful.completed (hx : x.length = n + 1) : ∑ m ∈ range (n + 1),
      S.chance n (fun y => y = x.take (m + 1)) *
        chainProd p (x.take (m + 1)) (x.drop (m + 1)) =
      chainProd p [] x := by
  let f : ℕ → ℝ := fun m =>
    (if m ≤ n then chainProd S.kept [] (x.take m) else 0) *
      chainProd p (x.take m) (x.drop m)
  have hterm : ∀ m ∈ Finset.range (n + 1),
      S.chance n (fun y => y = x.take (m + 1)) *
        chainProd p (x.take (m + 1)) (x.drop (m + 1)) =
      f m - f (m + 1) := by
    intro m hm
    have hlt : m < x.length := by
      rw [hx]
      exact Finset.mem_range.mp hm
    have hle : m ≤ n := by omega
    have htake : x.take (m + 1) = x.take m ++ [x[m]] := by
      rw [take_add_one, getElem?_eq_getElem hlt]
      rfl
    have hlength : (x.take m).length = m := by
      rw [length_take]
      omega
    have hdrop : chainProd p (x.take m) (x.drop m) =
        p (x.take m) x[m] *
          chainProd p (x.take (m + 1)) (x.drop (m + 1)) := by
      rw [drop_eq_getElem_cons hlt, chainProd, htake]
    simp only [f]
    rw [if_pos hle, hdrop]
    by_cases hlast : m + 1 ≤ n
    · rw [if_pos hlast, htake, hS.exactly (by omega : (x.take m).length < n)]
      ring
    · rw [if_neg hlast, htake, hS.exactly_last (by omega : (x.take m).length = n)]
      ring
  rw [Finset.sum_congr rfl hterm, Finset.sum_range_sub']
  simp [f, chainProd]

omit hS

end RejectionSampler

end Ginfer.Lib
