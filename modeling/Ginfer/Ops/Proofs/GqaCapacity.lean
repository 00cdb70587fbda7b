/-
The capacity of a launch is the largest count of its envelope.

A count only falls where a segment of the policy ends. From any window of
an envelope one of the windows the capacity looks at is reached within the
segment, the end of the segment or that of the envelope, and up to there
the count does not fall (`splitCount_climb`).
-/
import Mathlib.Order.Nat
import Ginfer.Ops.Proofs.GqaAttentionDecode

namespace Ginfer.Ops

open List

-- ============ counting

theorem divUp_le {x d k : Nat} (hd : 0 < d) (h : x ≤ k * d) :
    divUp x d ≤ k := by
  have hdiv := Nat.div_add_mod x d
  have hmod := Nat.mod_lt x hd
  unfold divUp
  split
  · refine Nat.succ_le_of_lt ((Nat.div_lt_iff_lt_mul hd).mpr ?_)
    have hne : x ≠ k * d := by
      rintro rfl
      rw [Nat.mul_mod_left] at *
      contradiction
    omega
  · rw [add_zero]
    exact Nat.div_le_of_le_mul (by rw [mul_comm]; exact h)

theorem divUp_mono {x y d : Nat} (hd : 0 < d) (h : x ≤ y) :
    divUp x d ≤ divUp y d :=
  divUp_le hd (h.trans (le_divUp_mul y hd))

theorem splitScale_divides (g : GqaGeometry) :
    0 < 32 / g.decodeSplitScale ∧ 0 < 24 / g.decodeSplitScale
      ∧ 0 < 192 / g.decodeSplitScale ∧ 0 < 64 / g.decodeSplitScale
      ∧ 0 < 128 / g.decodeSplitScale ∧ 0 < 256 / g.decodeSplitScale
      ∧ 0 < 480 / g.decodeSplitScale := by
  cases g <;> decide

-- ============ the segments

/-- A tier, as the upper bound adds it. -/
def includeTier (window limit target splits : Nat) : Nat :=
  if 0 < min window limit then max splits (divUp (min window limit) target)
  else splits

theorem le_includeTier (window limit target splits : Nat) :
    splits ≤ includeTier window limit target splits := by
  unfold includeTier
  split
  · exact le_max_left _ _
  · exact le_refl _

theorem includeTier_mono {w v limit target s t : Nat} (htarget : 0 < target)
    (hw : w ≤ v) (hs : s ≤ t) :
    includeTier w limit target s ≤ includeTier v limit target t := by
  unfold includeTier
  by_cases h : 0 < min w limit
  · have hdiv : divUp (min w limit) target ≤ divUp (min v limit) target :=
      divUp_mono htarget (by omega)
    rw [if_pos h, if_pos (by omega)]
    exact Nat.max_le.mpr ⟨hs.trans (le_max_left _ _),
      hdiv.trans (le_max_right _ _)⟩
  · rw [if_neg h]
    split
    · exact hs.trans (le_max_left _ _)
    · exact hs

theorem splitUpperBound_eq (g : GqaGeometry) {window : Nat}
    (hwindow : 0 < window) (decodeSplits : Nat) :
    gqaSmallTSplitUpperBound g window decodeSplits
      = (let s := includeTier window 4096 (64 / g.decodeSplitScale)
          (4 * g.decodeSplitScale)
        let s := if 4096 < window then
          includeTier window 8198 (128 / g.decodeSplitScale) s else s
        let s := if 8198 < window then
          includeTier window 16390 (256 / g.decodeSplitScale) s else s
        let s := if 16390 < window then
          includeTier window window (480 / g.decodeSplitScale) s else s
        min s decodeSplits) := by
  unfold gqaSmallTSplitUpperBound
  rw [if_neg (by omega)]
  rfl

/-- A tier that is there for the smaller window is there for the larger. -/
theorem tier_mono (limit from_ : Nat) {w v target s t : Nat}
    (htarget : 0 < target) (hw : w ≤ v) (hs : s ≤ t) :
    (if from_ < w then includeTier w limit target s else s)
      ≤ if from_ < v then includeTier v limit target t else t := by
  by_cases h : from_ < w
  · rw [if_pos h, if_pos (by omega)]
    exact includeTier_mono htarget hw hs
  · rw [if_neg h]
    split
    · exact hs.trans (le_includeTier _ _ _ _)
    · exact hs

theorem splitUpperBound_mono (g : GqaGeometry) {w v : Nat} (hw : 0 < w)
    (hle : w ≤ v) (decodeSplits : Nat) :
    gqaSmallTSplitUpperBound g w decodeSplits
      ≤ gqaSmallTSplitUpperBound g v decodeSplits := by
  obtain ⟨-, -, -, h64, h128, h256, h480⟩ := splitScale_divides g
  rw [splitUpperBound_eq g hw, splitUpperBound_eq g (by omega)]
  dsimp only
  have hfirst : includeTier w 4096 (64 / g.decodeSplitScale)
        (4 * g.decodeSplitScale)
      ≤ includeTier v 4096 (64 / g.decodeSplitScale) (4 * g.decodeSplitScale) :=
    includeTier_mono h64 hle (le_refl _)
  have hsecond := tier_mono 8198 4096 h128 hle hfirst
  have hthird := tier_mono 16390 8198 h256 hle hsecond
  have hlast : ∀ s t : Nat, s ≤ t →
      (if 16390 < w then includeTier w w (480 / g.decodeSplitScale) s else s)
        ≤ if 16390 < v then includeTier v v (480 / g.decodeSplitScale) t
          else t := by
    -- the last tier has no limit but the window
    intro s t hst
    by_cases h : 16390 < w
    · rw [if_pos h, if_pos (by omega)]
      unfold includeTier
      rw [if_pos (by omega), if_pos (by omega), Nat.min_self, Nat.min_self]
      exact Nat.max_le.mpr ⟨hst.trans (le_max_left _ _),
        (divUp_mono h480 hle).trans (le_max_right _ _)⟩
    · rw [if_neg h]
      split
      · exact hst.trans (le_includeTier _ _ _ _)
      · exact hst
  have hall := hlast _ _ hthird
  omega

/-- Two windows of one segment. -/
def SameSegment (w v : Nat) : Prop :=
  ∀ stop ∈ [128, 160, 512, 5000, 8198], stop < w ↔ stop < v

theorem sameSegment_iff {w v : Nat} :
    SameSegment w v ↔ (128 < w ↔ 128 < v) ∧ (160 < w ↔ 160 < v)
      ∧ (512 < w ↔ 512 < v) ∧ (5000 < w ↔ 5000 < v)
      ∧ (8198 < w ↔ 8198 < v) := by
  unfold SameSegment
  simp only [mem_cons, not_mem_nil, or_false, forall_eq_or_imp, forall_eq]

/-- In a segment the count does not fall. -/
theorem splitCount_mono (g : GqaGeometry) {w v tokens : Nat}
    {dtype : KVDType} {o : OccupancyPolicy} (hw : 0 < w) (hle : w ≤ v)
    (hsame : SameSegment w v) :
    gqaSmallTSplitCount g w tokens dtype o
      ≤ gqaSmallTSplitCount g v tokens dtype o := by
  obtain ⟨h32, h24, h192, -⟩ := splitScale_divides g
  obtain ⟨h128, h160, h512, h5000, h8198⟩ := sameSegment_iff.mp hsame
  unfold gqaSmallTSplitCount
  by_cases hfive : dtype = .i8 ∧ tokens = 5 ∧ 128 < w ∧ w ≤ 512
  · rw [if_pos hfive, if_pos ⟨hfive.1, hfive.2.1, by omega, by omega⟩]
    exact divUp_mono h32 hle
  · have hfive' : ¬ (dtype = .i8 ∧ tokens = 5 ∧ 128 < v ∧ v ≤ 512) :=
      fun h => hfive ⟨h.1, h.2.1, by omega, by omega⟩
    rw [if_neg hfive, if_neg hfive']
    by_cases hshort : dtype = .i8 ∧ tokens = 6 ∧ 128 < w ∧ w ≤ 160
    · rw [if_pos hshort, if_pos ⟨hshort.1, hshort.2.1, by omega, by omega⟩]
      exact divUp_mono h24 hle
    · have hshort' : ¬ (dtype = .i8 ∧ tokens = 6 ∧ 128 < v ∧ v ≤ 160) :=
        fun h => hshort ⟨h.1, h.2.1, by omega, by omega⟩
      rw [if_neg hshort, if_neg hshort']
      by_cases height : dtype = .i8 ∧ tokens = 6 ∧ 5000 < w ∧ w ≤ 8198
      · rw [if_pos height, if_pos ⟨height.1, height.2.1, by omega, by omega⟩]
        have := divUp_mono h192 hle
        omega
      · have height' : ¬ (dtype = .i8 ∧ tokens = 6 ∧ 5000 < v ∧ v ≤ 8198) :=
          fun h => height ⟨h.1, h.2.1, by omega, by omega⟩
        rw [if_neg height, if_neg height']
        exact splitUpperBound_mono g hw hle _

-- ============ the capacity

/-- The windows the capacity looks at. -/
def considered (e : GqaExecutionEnvelope) : List Nat :=
  [e.minVisibleKeys, e.maxVisibleKeys, 128, 160, 512, 4096, 5000, 8198, 16390]

/-- A window of an envelope. -/
def GqaExecutionEnvelope.Has (e : GqaExecutionEnvelope) (w : Nat) : Prop :=
  e.minVisibleKeys ≤ w ∧ w ≤ e.maxVisibleKeys

/-- The maximum of a function over the windows of a list that are in an
envelope, or what was there before. -/
theorem foldl_consider {e : GqaExecutionEnvelope} (count : Nat → Nat)
    (ws : List Nat) : ∀ start : Nat,
      let consider := fun (capacity window : Nat) =>
        if window < e.minVisibleKeys ∨ e.maxVisibleKeys < window then capacity
        else max capacity (count window)
      (start ≤ ws.foldl consider start
        ∧ ∀ w ∈ ws, e.Has w → count w ≤ ws.foldl consider start)
      ∧ (ws.foldl consider start = start
        ∨ ∃ w ∈ ws, e.Has w ∧ ws.foldl consider start = count w) := by
  induction ws with
  | nil =>
    intro start
    exact ⟨⟨le_refl _, nofun⟩, .inl rfl⟩
  | cons w ws ih =>
    intro start consider
    obtain ⟨⟨hstart, hall⟩, hsome⟩ := ih (consider start w)
    rw [foldl_cons]
    by_cases hout : w < e.minVisibleKeys ∨ e.maxVisibleKeys < w
    · have hskip : consider start w = start := if_pos hout
      rw [hskip] at hstart hall hsome ⊢
      refine ⟨⟨hstart, ?_⟩, ?_⟩
      · intro v hv hin
        rcases mem_cons.mp hv with rfl | hv
        · unfold GqaExecutionEnvelope.Has at hin
          omega
        · exact hall v hv hin
      · rcases hsome with h | ⟨v, hv, hin, h⟩
        · exact .inl h
        · exact .inr ⟨v, .tail _ hv, hin, h⟩
    · have htake : consider start w = max start (count w) := if_neg hout
      rw [htake] at hstart hall hsome ⊢
      refine ⟨⟨(le_max_left _ _).trans hstart, ?_⟩, ?_⟩
      · intro v hv hin
        rcases mem_cons.mp hv with rfl | hv
        · exact (le_max_right _ _).trans hstart
        · exact hall v hv hin
      · rcases hsome with h | ⟨v, hv, hin, h⟩
        · rcases le_total (count w) start with hle | hle
          · exact .inl (h.trans (Nat.max_eq_left hle))
          · refine .inr ⟨w, .head _, ?_, h.trans (Nat.max_eq_right hle)⟩
            unfold GqaExecutionEnvelope.Has
            omega
        · exact .inr ⟨v, .tail _ hv, hin, h⟩

section

variable (g : GqaGeometry) {e : GqaExecutionEnvelope} (tokens : Nat)
  (dtype : KVDType) (o : OccupancyPolicy)

/-- From every window of the envelope a considered one is reached. -/
theorem splitCount_climb {w : Nat} (hw : e.Has w) :
    ∃ v ∈ considered e, e.Has v
      ∧ gqaSmallTSplitCount g w tokens dtype o
        ≤ gqaSmallTSplitCount g v tokens dtype o := by
  obtain ⟨hmin, hmax⟩ := hw
  by_cases hzero : w = 0
  · -- then it is the low end
    refine ⟨e.minVisibleKeys, .head _, ⟨le_refl _, by omega⟩, ?_⟩
    rw [show e.minVisibleKeys = w by omega]
  · have hclimb : ∀ v ∈ considered e, w ≤ v → v ≤ e.maxVisibleKeys →
        SameSegment w v → ∃ v ∈ considered e, e.Has v
          ∧ gqaSmallTSplitCount g w tokens dtype o
            ≤ gqaSmallTSplitCount g v tokens dtype o :=
      fun v hv hle hin hsame => ⟨v, hv, ⟨by omega, hin⟩,
        splitCount_mono g (by omega) hle hsame⟩
    have htop := hclimb e.maxVisibleKeys (.tail _ (.head _)) hmax (le_refl _)
    -- a segment is left at its end, or the envelope ends in it
    have hstop : ∀ stop ∈ considered e, w ≤ stop →
        (∀ v, w ≤ v → v ≤ stop → SameSegment w v) →
          ∃ v ∈ considered e, e.Has v
            ∧ gqaSmallTSplitCount g w tokens dtype o
              ≤ gqaSmallTSplitCount g v tokens dtype o := by
      intro stop hin hle hsame
      by_cases hend : stop ≤ e.maxVisibleKeys
      · exact hclimb stop hin hle hend (hsame stop hle (le_refl _))
      · exact htop (hsame _ hmax (by omega))
    have hlisted : ∀ stop ∈ [128, 160, 512, 5000, 8198],
        stop ∈ considered e := by
      intro stop hin
      unfold considered
      simp only [mem_cons, not_mem_nil, or_false] at hin ⊢
      omega
    by_cases h128 : w ≤ 128
    · exact hstop 128 (hlisted _ (by decide)) h128 fun v _ _ =>
        sameSegment_iff.mpr (by omega)
    by_cases h160 : w ≤ 160
    · exact hstop 160 (hlisted _ (by decide)) h160 fun v _ _ =>
        sameSegment_iff.mpr (by omega)
    by_cases h512 : w ≤ 512
    · exact hstop 512 (hlisted _ (by decide)) h512 fun v _ _ =>
        sameSegment_iff.mpr (by omega)
    by_cases h5000 : w ≤ 5000
    · exact hstop 5000 (hlisted _ (by decide)) h5000 fun v _ _ =>
        sameSegment_iff.mpr (by omega)
    by_cases h8198 : w ≤ 8198
    · exact hstop 8198 (hlisted _ (by decide)) h8198 fun v _ _ =>
        sameSegment_iff.mpr (by omega)
    · exact htop (sameSegment_iff.mpr (by omega))

/-- The capacity is the largest count of the windows of the envelope. -/
theorem launchCapacity_max (hle : e.minVisibleKeys ≤ e.maxVisibleKeys) :
    (∀ w, e.Has w → gqaSmallTSplitCount g w tokens dtype o
        ≤ gqaSmallTLaunchCapacity g e tokens dtype o)
      ∧ ∃ w, e.Has w ∧ gqaSmallTLaunchCapacity g e tokens dtype o
        = gqaSmallTSplitCount g w tokens dtype o := by
  obtain ⟨⟨-, hall⟩, hsome⟩ := foldl_consider (e := e)
    (fun w => gqaSmallTSplitCount g w tokens dtype o) (considered e) 0
  constructor
  · intro w hw
    obtain ⟨v, hv, hin, hclimb⟩ := splitCount_climb g tokens dtype o hw
    exact hclimb.trans (hall v hv hin)
  · rcases hsome with h | ⟨w, -, hin, h⟩
    · -- then no count is larger than 0
      have hlow := hall e.minVisibleKeys (.head _) ⟨le_refl _, hle⟩
      refine ⟨e.minVisibleKeys, ⟨le_refl _, hle⟩, ?_⟩
      rw [h] at hlow
      exact h.trans (Nat.le_zero.mp hlow).symm
    · exact ⟨w, hin, h⟩

/-- The capacity of an envelope within another. -/
theorem launchCapacity_mono {e' : GqaExecutionEnvelope}
    (hle : e'.minVisibleKeys ≤ e'.maxVisibleKeys)
    (hmin : e.minVisibleKeys ≤ e'.minVisibleKeys)
    (hmax : e'.maxVisibleKeys ≤ e.maxVisibleKeys) :
    gqaSmallTLaunchCapacity g e' tokens dtype o
      ≤ gqaSmallTLaunchCapacity g e tokens dtype o := by
  obtain ⟨w, hw, heq⟩ := (launchCapacity_max g tokens dtype o hle).2
  rw [heq]
  exact (launchCapacity_max g tokens dtype o (by omega)).1 w
    ⟨hmin.trans hw.1, hw.2.trans hmax⟩

end

end Ginfer.Ops
