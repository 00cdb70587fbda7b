/-
Graph profiles partition the frontiers.

Ends in increasing order cut the frontiers into closed intervals, each
beginning behind the one before (`profilesFrom_partitions`), and none of
them reaches over an end (`profilesFrom_respects`). So a decision that
changes at an end is the same throughout a profile. The split of the
sliding window changes at 96, which is always an end. The target's route
changes where it sees 512 or 1024 keys: the first is an end for every
window, the second for no window of more than twelve tokens
(`dflash_profiles_sound_iff`).
-/
import Mathlib.Data.List.Chain
import Ginfer.Qwen.GraphProfiles

namespace Ginfer.Qwen

open Ginfer.Lib List

-- ============ the intervals

/-- Closed intervals, one behind the other, from `first` to `last`. -/
structure Partitions (first last : Nat)
    (profiles : List GraphExecutionProfile) : Prop where
  nonempty : profiles ≠ []
  closed : ∀ p ∈ profiles, p.min ≤ p.max
  contiguous : profiles.IsChain fun p q => q.min = p.max + 1
  disjoint : profiles.Pairwise fun p q => p.max < q.min
  covers : ∀ f, (first ≤ f ∧ f ≤ last) ↔ ∃ p ∈ profiles, p.min ≤ f ∧ f ≤ p.max

variable {first last : Nat}

theorem partitions_singleton {topology : Nat}
    (h : first ≤ last) : Partitions first last [⟨first, last, topology⟩] where
  nonempty := cons_ne_nil _ _
  closed := by
    intro p hp
    rw [mem_singleton.mp hp]
    exact h
  contiguous := isChain_singleton _
  disjoint := pairwise_singleton _ _
  covers := by
    intro f
    constructor
    · exact fun hf => ⟨_, mem_singleton_self _, hf⟩
    · rintro ⟨p, hp, hf⟩
      rw [mem_singleton.mp hp] at hf
      exact hf

variable {stop : Nat}

/-- An interval in front. -/
theorem Partitions.cons {topology : Nat} {profiles : List GraphExecutionProfile}
    (h : Partitions (stop + 1) last profiles) (hfirst : first ≤ stop)
    (hstop : stop ≤ last) (hhead : ∀ p ∈ profiles.head?, p.min = stop + 1) :
    Partitions first last (⟨first, stop, topology⟩ :: profiles) where
  nonempty := cons_ne_nil _ _
  closed := by
    intro p hp
    rcases mem_cons.mp hp with rfl | hp
    · exact hfirst
    · exact h.closed p hp
  contiguous := isChain_cons.mpr ⟨hhead, h.contiguous⟩
  disjoint := by
    refine List.Pairwise.cons (fun p hp => ?_) h.disjoint
    have := ((h.covers p.min).mpr ⟨p, hp, le_refl _, h.closed p hp⟩).1
    exact this
  covers := by
    intro f
    constructor
    · rintro ⟨hlow, hhigh⟩
      by_cases hf : f ≤ stop
      · exact ⟨_, .head _, hlow, hf⟩
      · obtain ⟨p, hp, hcovers⟩ :=
          (h.covers f).mp ⟨by omega, hhigh⟩
        exact ⟨p, .tail _ hp, hcovers⟩
    · rintro ⟨p, hp, hcovers⟩
      rcases mem_cons.mp hp with rfl | hp
      · exact ⟨hcovers.1, le_trans hcovers.2 hstop⟩
      · have := (h.covers f).mpr ⟨p, hp, hcovers⟩
        exact ⟨by omega, this.2⟩

theorem profilesFrom_head (last start : Nat) (ends : List Nat) :
    ∀ p ∈ (profilesFrom last start ends).head?, p.min = start := by
  intro p hp
  cases ends with
  | nil =>
    rw [profilesFrom] at hp
    split at hp
    · obtain rfl := Option.mem_some.mp hp
      rfl
    · cases hp
  | cons preferred rest =>
    rw [profilesFrom] at hp
    split at hp
    · cases hp
    · obtain rfl := Option.mem_some.mp hp
      rfl

/-- Increasing ends cut what is left into intervals. -/
theorem profilesFrom_partitions (ends : List Nat) :
    ∀ start, start ≤ last → (∀ stop ∈ ends, start ≤ stop) →
      ends.Pairwise (· < ·) →
        Partitions start last (profilesFrom last start ends) := by
  induction ends with
  | nil =>
    intro start hstart _ _
    rw [profilesFrom, if_pos hstart]
    exact partitions_singleton hstart
  | cons preferred rest ih =>
    intro start hstart hbound hsorted
    have hpreferred := hbound preferred (.head _)
    obtain ⟨hless, hsorted⟩ := pairwise_cons.mp hsorted
    rw [profilesFrom, if_neg (Nat.not_lt.mpr hstart)]
    dsimp only
    have hstop : start ≤ Nat.min preferred last :=
      Nat.le_min.mpr ⟨hpreferred, hstart⟩
    by_cases hlast : Nat.min preferred last = last
    · rw [if_pos hlast, hlast]
      exact partitions_singleton hstart
    · rw [if_neg hlast]
      have hmin : Nat.min preferred last = preferred := by
        rcases le_total preferred last with h | h
        · exact Nat.min_eq_left h
        · exact absurd (Nat.min_eq_right h) hlast
      have hle : Nat.min preferred last ≤ last := min_le_right _ _
      rw [hmin] at hle hlast hstop ⊢
      refine Partitions.cons (ih (preferred + 1) (by omega) ?_ hsorted)
        hstop hle (profilesFrom_head _ _ _)
      exact fun stop hmem => hless stop hmem

variable {ends : List Nat}

/-- The begin, and the later begins of `profilesFrom`. -/
theorem profilesFrom_min {start : Nat} (hbound : ∀ stop ∈ ends, start ≤ stop)
    (hsorted : ends.Pairwise (· < ·)) :
    ∀ p ∈ profilesFrom last start ends, start ≤ p.min := by
  intro p hp
  rcases lt_or_ge last start with hlast | hlast
  · have hnil : profilesFrom last start ends = [] := by
      cases ends with
      | nil => exact if_neg (Nat.not_le.mpr hlast)
      | cons preferred rest => exact if_pos hlast
    rw [hnil] at hp
    cases hp
  · have hparts := profilesFrom_partitions ends start hlast hbound hsorted
    exact ((hparts.covers p.min).mpr ⟨p, hp, le_refl _, hparts.closed p hp⟩).1

/-- No interval reaches over an end. -/
theorem profilesFrom_respects (ends : List Nat) :
    ∀ start, (∀ stop ∈ ends, start ≤ stop) → ends.Pairwise (· < ·) →
      ∀ p ∈ profilesFrom last start ends, ∀ stop ∈ ends,
        p.min ≤ stop → p.max ≤ stop := by
  induction ends with
  | nil => exact fun _ _ _ _ _ stop hstop => nomatch hstop
  | cons preferred rest ih =>
    intro start hbound hsorted p hp stop hstop hmin
    obtain ⟨hless, htail⟩ := pairwise_cons.mp hsorted
    rw [profilesFrom] at hp
    split at hp
    · cases hp
    · dsimp only at hp
      have hcap : Nat.min preferred last ≤ preferred :=
        min_le_left _ _
      rcases mem_cons.mp hp with rfl | hp
      · rcases mem_cons.mp hstop with rfl | hstop
        · exact hcap
        · exact le_trans hcap (le_of_lt (hless stop hstop))
      · split at hp
        · cases hp
        · next hlast =>
          have hlater : Nat.min preferred last = preferred := by
            rcases le_total preferred last with h | h
            · exact Nat.min_eq_left h
            · exact absurd (Nat.min_eq_right h) hlast
          rw [hlater] at hp
          have hrest : ∀ stop ∈ rest, preferred + 1 ≤ stop :=
            fun stop hmem => hless stop hmem
          rcases mem_cons.mp hstop with rfl | hstop
          · have := profilesFrom_min hrest htail p hp
            omega
          · exact ih _ hrest htail p hp stop hstop hmin

/-- Every interval ends at an end, or at the last frontier. -/
theorem profilesFrom_max (ends : List Nat) :
    ∀ start, ∀ p ∈ profilesFrom last start ends,
      p.max = last ∨ p.max ∈ ends := by
  induction ends with
  | nil =>
    intro start p hp
    rw [profilesFrom] at hp
    split at hp
    · rw [mem_singleton.mp hp]
      exact .inl rfl
    · cases hp
  | cons preferred rest ih =>
    intro start p hp
    rw [profilesFrom] at hp
    split at hp
    · cases hp
    · rcases mem_cons.mp hp with rfl | hp
      · rcases le_total preferred last with h | h
        · exact .inr (mem_cons.mpr (.inl (Nat.min_eq_left h)))
        · exact .inl (Nat.min_eq_right h)
      · split at hp
        · cases hp
        · rcases ih _ p hp with h | h
          · exact .inl h
          · exact .inr (.tail _ h)

-- ============ the sorted ends

theorem mem_unique {l : List Nat} {x : Nat} : x ∈ unique l ↔ x ∈ l := by
  induction l using unique.induct with
  | case1 => exact Iff.rfl
  | case2 a => exact Iff.rfl
  | case3 a rest ih =>
    rw [unique, if_pos rfl, ih]
    simp
  | case4 a b rest hne ih =>
    rw [unique, if_neg hne, mem_cons, ih]
    exact mem_cons.symm

theorem unique_sorted {l : List Nat} (h : l.Pairwise (· ≤ ·)) :
    (unique l).Pairwise (· < ·) := by
  induction l using unique.induct with
  | case1 => exact List.Pairwise.nil
  | case2 a => exact pairwise_singleton _ _
  | case3 a rest ih =>
    rw [unique, if_pos rfl]
    exact ih (pairwise_cons.mp h).2
  | case4 a b rest hne ih =>
    rw [unique, if_neg hne]
    obtain ⟨hle, htail⟩ := pairwise_cons.mp h
    refine List.Pairwise.cons (fun x hx => ?_) (ih htail)
    -- the second element is the least of the rest, and above the first
    have hfirst := hle b (.head _)
    rcases mem_cons.mp (mem_unique.mp hx) with rfl | hx
    · omega
    · have := (pairwise_cons.mp htail).1 x hx
      omega

theorem mem_sortedEnds {x : Nat} : x ∈ sortedEnds ends ↔ x ∈ ends := by
  unfold sortedEnds
  rw [mem_unique, mem_insertionSort]

theorem sortedEnds_sorted (ends : List Nat) :
    (sortedEnds ends).Pairwise (· < ·) :=
  unique_sorted (pairwise_insertionSort (· ≤ ·) ends)

theorem graphProfilesThrough_partitions (hsorted : ends.Pairwise (· < ·)) :
    Partitions 0 last (graphProfilesThrough last ends) :=
  profilesFrom_partitions ends 0 (Nat.zero_le _)
    (fun _ _ => Nat.zero_le _) hsorted

variable {p : GraphExecutionProfile}

theorem graphProfilesThrough_respects (hp : p ∈ graphProfilesThrough last
      (sortedEnds ends)) {f : Nat} (hstop : stop ∈ ends)
    (hmin : p.min ≤ f) (hmax : f ≤ p.max) : p.max ≤ stop ↔ f ≤ stop :=
  ⟨le_trans hmax, fun hf => profilesFrom_respects (sortedEnds ends) 0
    (fun _ _ => Nat.zero_le _) (sortedEnds_sorted ends) p hp stop
    (mem_sortedEnds.mpr hstop) (le_trans hmin hf)⟩

theorem graphProfilesThrough_max (hp : p ∈ graphProfilesThrough last
      (sortedEnds ends)) : p.max = last ∨ p.max ∈ ends :=
  (profilesFrom_max (sortedEnds ends) 0 p hp).imp_right mem_sortedEnds.mp

-- ============ the profiles

variable {capacity draftWindow batchSize : Nat}

/-- The topology class does not enter. -/
theorem Partitions.map {profiles : List GraphExecutionProfile}
    (h : Partitions first last profiles)
    (topology : GraphExecutionProfile → Nat) :
    Partitions first last
      (profiles.map fun p => { p with topologyClass := topology p }) where
  nonempty := by
    rw [ne_eq, map_eq_nil_iff]
    exact h.nonempty
  closed := by
    intro p hp
    obtain ⟨q, hq, rfl⟩ := mem_map.mp hp
    exact h.closed q hq
  contiguous := (isChain_map _).mpr h.contiguous
  disjoint := pairwise_map.mpr h.disjoint
  covers := by
    intro f
    rw [h.covers f]
    constructor
    · rintro ⟨p, hp, hcovers⟩
      exact ⟨_, mem_map_of_mem hp, hcovers⟩
    · rintro ⟨p, hp, hcovers⟩
      obtain ⟨q, hq, rfl⟩ := mem_map.mp hp
      exact ⟨q, hq, hcovers⟩

theorem ordinaryGraphProfiles_partitions (hpositive : 1 ≤ capacity)
    (hword : capacity < 2 ^ 32) :
    Partitions 0 (capacity - 1) (ordinaryGraphProfiles capacity) := by
  unfold ordinaryGraphProfiles
  rw [u32Sub_eq hpositive hword]
  exact graphProfilesThrough_partitions (by decide)

theorem mtpGraphProfiles_partitions (hpositive : 1 ≤ capacity)
    (hword : capacity < 2 ^ 32) (hwindow : draftWindow ≠ 0) :
    Partitions 0 (capacity - 1) (mtpGraphProfiles capacity draftWindow) := by
  unfold mtpGraphProfiles
  rw [if_neg (by omega), u32Sub_eq hpositive hword]
  exact graphProfilesThrough_partitions (sortedEnds_sorted _)

theorem dflashBaseProfiles_eq (hpositive : 1 ≤ capacity)
    (hword : capacity < 2 ^ 32) (hwindow : draftWindow ≠ 0) :
    dflashBaseProfiles capacity draftWindow
      = graphProfilesThrough (capacity - 1)
        (sortedEnds (dflashEnds draftWindow)) := by
  unfold dflashBaseProfiles
  rw [if_neg (by omega), u32Sub_eq hpositive hword]

/-- What a profile records of a frontier: both decisions. -/
def Records (capacity draftWindow batchSize : Nat)
    (p : GraphExecutionProfile) (f : Nat) : Prop :=
  p.topologyClass.testBit 1
      = dflashTargetUsesChunkedSmallT draftWindow batchSize
        (targetMax capacity draftWindow f)
    ∧ p.topologyClass.testBit 0 = decide (96 < f)

/-- Every profile records each of its frontiers. -/
def Uniform (capacity draftWindow batchSize : Nat) : Prop :=
  ∀ p ∈ dflashGraphProfiles capacity draftWindow batchSize,
    ∀ f, p.min ≤ f → f ≤ p.max → Records capacity draftWindow batchSize p f

/-- The profiles of a configuration are as they should be. -/
structure ProfilesSound (capacity draftWindow batchSize : Nat) : Prop where
  ordinary : Partitions 0 (capacity - 1) (ordinaryGraphProfiles capacity)
  mtp : draftWindow ≠ 0 →
    Partitions 0 (capacity - 1) (mtpGraphProfiles capacity draftWindow)
  dflash : draftWindow ≠ 0 →
    Partitions 0 (capacity - 1)
      (dflashGraphProfiles capacity draftWindow batchSize)
  uniform : draftWindow ≠ 0 → Uniform capacity draftWindow batchSize

/-- The target changes its route at no frontier, or at one that is an
end. -/
def RouteEnds (capacity draftWindow batchSize : Nat) : Prop :=
  let tokens := u32Add draftWindow 1
  tokens ≤ 12 ∨ 1 < batchSize ∨ capacity ≤ 1024 ∨ 1024 < tokens
    ∨ tokens ∈ [513, 897, 928]

theorem dflashTopologyClass_bits (f : Nat) :
    (dflashTopologyClass capacity draftWindow batchSize f).testBit 1
        = dflashTargetUsesChunkedSmallT draftWindow batchSize
        (targetMax capacity draftWindow f)
      ∧ (dflashTopologyClass capacity draftWindow batchSize f).testBit 0
        = decide (96 < f) := by
  unfold dflashTopologyClass
  dsimp only
  generalize dflashTargetUsesChunkedSmallT draftWindow batchSize
    (targetMax capacity draftWindow f) = chunked
  by_cases hsplit : 96 < f
  · rw [if_pos hsplit, decide_eq_true hsplit]
    cases chunked <;> decide
  · rw [if_neg hsplit, decide_eq_false hsplit]
    cases chunked <;> decide

/-- A profile is uniform where its last frontier decides for all. -/
theorem uniform_iff (hpositive : 1 ≤ capacity) (hword : capacity < 2 ^ 32)
    (hwindow : draftWindow ≠ 0) :
    Uniform capacity draftWindow batchSize
      ↔ ∀ p ∈ graphProfilesThrough (capacity - 1)
            (sortedEnds (dflashEnds draftWindow)),
          ∀ f, p.min ≤ f → f ≤ p.max →
            dflashTargetUsesChunkedSmallT draftWindow batchSize
                (targetMax capacity draftWindow p.max)
              = dflashTargetUsesChunkedSmallT draftWindow batchSize
                (targetMax capacity draftWindow f) := by
  unfold Uniform dflashGraphProfiles
  rw [dflashBaseProfiles_eq hpositive hword hwindow]
  constructor
  · intro h p hp f hmin hmax
    have hrecords := (h _ (mem_map_of_mem hp) f hmin hmax).1
    exact (dflashTopologyClass_bits p.max).1.symm.trans hrecords
  · intro h p hp f hmin hmax
    obtain ⟨q, hq, rfl⟩ := mem_map.mp hp
    obtain ⟨hchunked, hsplit⟩ := @dflashTopologyClass_bits capacity
      draftWindow batchSize q.max
    refine ⟨hchunked.trans (h q hq f hmin hmax), hsplit.trans ?_⟩
    have hend : 96 ∈ dflashEnds draftWindow :=
      mem_append_left _ (mem_append_left _ (.head _))
    have hsame := graphProfilesThrough_respects hq hend hmin hmax
    exact decide_eq_decide.mpr (by omega)

/-- A number of visible keys that is reached at an end is passed by all
frontiers of a profile, or by none. -/
theorem passes_same (hp : p ∈ graphProfilesThrough (capacity - 1)
      (sortedEnds (dflashEnds draftWindow)))
    {limit f : Nat} (hlimit : draftWindow + 1 ≤ limit)
    (hend : limit - (draftWindow + 1) ∈ dflashEnds draftWindow)
    (hmin : p.min ≤ f) (hmax : f ≤ p.max) :
    limit < targetMax capacity draftWindow p.max
      ↔ limit < targetMax capacity draftWindow f := by
  have hsame := graphProfilesThrough_respects hp hend hmin hmax
  unfold targetMax
  rw [Nat.lt_min, Nat.lt_min]
  omega

theorem shifted_mem {visibleEnd : Nat} (hvisible : visibleEnd ∈ visibleEnds)
    (hwindow : u32Add draftWindow 1 = draftWindow + 1)
    (hle : draftWindow + 1 ≤ visibleEnd) :
    visibleEnd - (draftWindow + 1) ∈ dflashEnds draftWindow := by
  refine mem_append_left _ (mem_append_right _ ?_)
  refine mem_flatMap.mpr ⟨visibleEnd, hvisible, ?_⟩
  unfold addShifted
  rw [hwindow, if_pos hle]
  exact mem_singleton_self _

theorem fixed_mem (hstop : stop ∈ [96, 127, 511]) :
    stop ∈ dflashEnds draftWindow := by
  refine mem_append_left _ (mem_append_left _ ?_)
  exact mem_append_left [1023, 2047, 4095, 8191, 16383, 32767, 65536,
    131072, 196608] hstop

/-- The tokens of a window, whose sum wraps for the last one only. -/
theorem tokens_eq (hword : draftWindow < 2 ^ 32)
    (htokens : u32Add draftWindow 1 ≠ 0) :
    u32Add draftWindow 1 = draftWindow + 1 := by
  unfold u32Add wrapAdd at htokens ⊢
  omega

/-- Where the route changes at ends only, the profiles are uniform. -/
theorem uniform_of_routeEnds (hpositive : 1 ≤ capacity)
    (hword : capacity < 2 ^ 32) (hwindow : draftWindow ≠ 0)
    (hwindowWord : draftWindow < 2 ^ 32)
    (h : RouteEnds capacity draftWindow batchSize) :
    Uniform capacity draftWindow batchSize := by
  rw [uniform_iff hpositive hword hwindow]
  intro p hp f hmin hmax
  unfold dflashTargetUsesChunkedSmallT
  dsimp only
  split
  · rfl
  · next hsix =>
    split
    · rfl
    · next hbatch =>
      have htokens := tokens_eq hwindowWord (by omega)
      refine decide_eq_decide.mpr ?_
      unfold RouteEnds at h
      dsimp only at h
      rw [htokens] at h hsix ⊢
      by_cases htwelve : draftWindow + 1 ≤ 12
      · rw [if_pos htwelve]
        exact passes_same hp (by omega)
          (shifted_mem (by decide) htokens (by omega)) hmin hmax
      · rw [if_neg htwelve]
        rcases h with h | h | h | h | h
        · exact absurd h htwelve
        · exact absurd h hbatch
        · -- no frontier sees more keys than the capacity
          unfold targetMax
          rw [Nat.lt_min, Nat.lt_min]
          omega
        · unfold targetMax
          rw [Nat.lt_min, Nat.lt_min]
          omega
        · have hend : 1024 - (draftWindow + 1) ∈ [96, 127, 511] := by
            simp only [mem_cons, not_mem_nil, or_false] at h ⊢
            omega
          have hle : draftWindow + 1 ≤ 1024 := by
            simp only [mem_cons, not_mem_nil, or_false] at h
            omega
          exact passes_same hp hle (fixed_mem hend) hmin hmax

/-- The frontier that sees 1024 keys is an end for three windows only. -/
theorem limit_not_mem (hwindow : u32Add draftWindow 1 = draftWindow + 1)
    (htwelve : ¬ draftWindow + 1 ≤ 12) (hlong : ¬ 1024 < draftWindow + 1)
    (hfixed : draftWindow + 1 ∉ [513, 897, 928]) :
    1024 - (draftWindow + 1) ∉ dflashEnds draftWindow := by
  unfold dflashEnds
  dsimp only
  rw [hwindow, mem_append, mem_append]
  rintro ((hmem | hmem) | hmem)
  · simp only [mem_cons, not_mem_nil, or_false] at hfixed hmem
    omega
  · obtain ⟨visibleEnd, hvisible, hmem⟩ := mem_flatMap.mp hmem
    unfold addShifted at hmem
    split at hmem
    · have heq := mem_singleton.mp hmem
      have hlimit : visibleEnd = 1024 := by omega
      rw [hlimit] at hvisible
      exact absurd hvisible (by decide)
    · cases hmem
  · rw [if_neg (by unfold maximumDFlashDraftTokens; omega)] at hmem
    cases hmem

/-- Elsewhere a profile reaches over the change. -/
theorem routeEnds_of_uniform (hpositive : 1 ≤ capacity)
    (hword : capacity < 2 ^ 32) (hwindow : draftWindow ≠ 0)
    (hwindowWord : draftWindow < 2 ^ 32)
    (h : Uniform capacity draftWindow batchSize) :
    RouteEnds capacity draftWindow batchSize := by
  rw [uniform_iff hpositive hword hwindow] at h
  by_contra hroute
  unfold RouteEnds at hroute
  dsimp only at hroute
  rw [not_or, not_or, not_or, not_or] at hroute
  obtain ⟨htwelve, hbatch, hcapacity, hlong, hfixed⟩ := hroute
  have htokens := tokens_eq hwindowWord (by omega)
  rw [htokens] at htwelve hlong hfixed
  -- the last frontier that sees 1024 keys
  have hcovers := ((graphProfilesThrough_partitions
    (sortedEnds_sorted (dflashEnds draftWindow))).covers
      (1024 - (draftWindow + 1))).mp
        ⟨Nat.zero_le _, show _ ≤ capacity - 1 by omega⟩
  obtain ⟨p, hp, hmin, hmax⟩ := hcovers
  have hbeyond : p.max ≠ 1024 - (draftWindow + 1) := by
    intro heq
    rcases graphProfilesThrough_max hp with hlast | hend
    · omega
    · rw [heq] at hend
      exact absurd hend (limit_not_mem htokens htwelve hlong hfixed)
  have hsame := h p hp _ hmin hmax
  unfold dflashTargetUsesChunkedSmallT targetMax at hsame
  dsimp only at hsame
  rw [htokens, if_neg (by omega), if_neg hbatch, if_neg htwelve,
    if_neg (by omega), if_neg hbatch] at hsame
  have hiff := decide_eq_decide.mp hsame
  rw [Nat.lt_min, Nat.lt_min] at hiff
  omega

/-- The profiles partition the frontiers for every configuration, and those
of DFlash are uniform exactly where the target changes its route at an
end, if it does. -/
theorem dflash_profiles_sound_iff (capacity draftWindow batchSize : Nat)
    (hpositive : 1 ≤ capacity) (hcapacity : capacity < 2 ^ 32)
    (hwindow : draftWindow < 2 ^ 32) :
    ProfilesSound capacity draftWindow batchSize
      ↔ RouteEnds capacity draftWindow batchSize := by
  constructor
  · intro h
    by_cases hzero : draftWindow = 0
    · subst hzero
      exact Or.inl (by decide)
    · exact routeEnds_of_uniform hpositive hcapacity hzero hwindow
        (h.uniform hzero)
  · intro h
    refine ⟨ordinaryGraphProfiles_partitions hpositive hcapacity,
      mtpGraphProfiles_partitions hpositive hcapacity, fun hne => ?_,
      fun hne => uniform_of_routeEnds hpositive hcapacity hne hwindow h⟩
    unfold dflashGraphProfiles
    rw [dflashBaseProfiles_eq hpositive hcapacity hne]
    exact (graphProfilesThrough_partitions (sortedEnds_sorted _)).map _

/-- A window of seven drafts in a context of 2048. -/
theorem dflash_profiles_sound_seven : ProfilesSound 2048 7 1 :=
  (dflash_profiles_sound_iff 2048 7 1 (by decide) (by decide)
    (by decide)).mpr (Or.inl (by decide))

/-- The fifteen drafts of a wide target: the profile from 512 to 1023 is
recorded as chunked, which its first frontier, with 528 keys to see, is
not. -/
theorem dflash_profiles_wide :
    ¬ ∀ capacity draftWindow batchSize, 1 ≤ capacity → capacity < 2 ^ 32 →
        draftWindow < 2 ^ 32 →
          ProfilesSound capacity draftWindow batchSize := by
  intro hall
  have hsound := hall 2048 15 1 (by decide) (by decide) (by decide)
  have hprofile : (⟨512, 1023, 3⟩ : GraphExecutionProfile)
      ∈ dflashGraphProfiles 2048 15 1 := by decide
  have hchunked := (hsound.uniform (by decide) _ hprofile 512 (by decide)
    (by decide)).1
  exact absurd hchunked (by decide)

end Ginfer.Qwen
