/-
Split-KV decode attention covers every visible key once — for every
profile and window but one kind.

# What holds, and what does not

Whatever the number of active splits, the ranges of the split selection
partition the visible keys (`splitSelection_attends`). The partial kernel
and the reducer agree on that number wherever it does not depend on the
`eight_k_split_max` they pass (`activeSplits_cap`). The D=128 kernel passes
none, and the number does depend on it for INT8 with six columns and
between 5001 and 8198 keys: there it finds no active split and writes
nothing, while the reducer reads partial results nobody wrote
(`d128_eight_k_silent`). `covers_once_iff` is the exact statement.
-/
import Ginfer.Ops.GqaAttentionDecode

namespace Ginfer.Ops

open Ginfer.Lib

-- ============ counting

theorem divUp_pos {x d : Nat} (hx : 0 < x) (hd : 0 < d) : 0 < divUp x d := by
  unfold divUp
  by_cases h : x % d = 0
  · have hdvd := Nat.le_of_dvd hx (Nat.dvd_of_mod_eq_zero h)
    exact Nat.add_pos_left (Nat.div_pos hdvd hd) _
  · rw [if_pos h]
    exact Nat.succ_pos _

theorem le_divUp_mul (x : Nat) {d : Nat} (hd : 0 < d) : x ≤ divUp x d * d := by
  have hdiv := Nat.div_add_mod x d
  have hmod := Nat.mod_lt x hd
  unfold divUp
  split
  · rw [add_mul, one_mul, mul_comm]
    omega
  · rw [add_zero, mul_comm]
    omega

theorem splitScale_pos (g : GqaGeometry) : 0 < g.decodeSplitScale := by
  cases g <;> decide

theorem defaultSplits_pos (g : GqaGeometry) (window : Nat) :
    0 < gqaSmallTDefaultSplits g window := by
  have := splitScale_pos g
  unfold gqaSmallTDefaultSplits decodeSplitsMax
  dsimp only
  omega

theorem eightKSplitMax_pos {smCount : Nat} (hsm : 8 ≤ smCount)
    (g : GqaGeometry) : 0 < gqaEightKSplitMax smCount g.decodeSplitScale :=
  Nat.mul_pos (Nat.div_pos (by omega) (by decide)) (splitScale_pos g)

variable {window : Nat}

theorem splitUpperBound_pos (g : GqaGeometry) {decodeSplits : Nat}
    (hsplits : 0 < decodeSplits) :
    0 < gqaSmallTSplitUpperBound g window decodeSplits := by
  have hscale := splitScale_pos g
  unfold gqaSmallTSplitUpperBound
  split
  · exact hsplits
  · -- every tier only adds to the least number of splits
    have htier : ∀ limit target s : Nat,
        s ≤ (if 0 < min window limit then
          max s (divUp (min window limit) target) else s) := by
      intro limit target s
      split
      · exact le_max_left _ _
      · exact le_refl s
    have hstep : ∀ (c : Prop) [Decidable c] (s t : Nat), s ≤ t →
        s ≤ if c then t else s := by
      intro c _ s t hle
      split
      · exact hle
      · exact le_refl s
    refine Nat.lt_min.mpr ⟨?_, hsplits⟩
    refine lt_of_lt_of_le (by omega : 0 < 4 * g.decodeSplitScale) ?_
    refine le_trans ?_ (hstep _ _ _ (htier _ _ _))
    refine le_trans ?_ (hstep _ _ _ (htier _ _ _))
    refine le_trans ?_ (hstep _ _ _ (htier _ _ _))
    exact htier _ _ _

variable {tokens : Nat}

theorem splitCount_pos (g : GqaGeometry)
    {dtype : KVDType} {o : OccupancyPolicy} (hwindow : 0 < window)
    (hsm : 8 ≤ o.smCount) (hbase : 0 < o.gqaDecodeSplitsBase) :
    0 < gqaSmallTSplitCount g window tokens dtype o := by
  have hscale := splitScale_pos g
  have height := eightKSplitMax_pos hsm g
  have htiles : 0 < 32 / g.decodeSplitScale ∧ 0 < 24 / g.decodeSplitScale := by
    cases g <;> decide
  have hruntime : 0 < gqaRuntimeDecodeSplits o g.decodeSplitScale :=
    Nat.lt_min.mpr ⟨Nat.mul_pos hbase hscale, by decide⟩
  unfold gqaSmallTSplitCount
  split
  · exact divUp_pos hwindow htiles.1
  · split
    · exact divUp_pos hwindow htiles.2
    · split
      · exact Nat.lt_min.mpr ⟨by omega, height⟩
      · exact splitUpperBound_pos g hruntime

/-- The capacity covers the low end of the envelope. -/
theorem launchCapacity_pos (g : GqaGeometry) {e : GqaExecutionEnvelope}
    {dtype : KVDType} {o : OccupancyPolicy} (hmin : 0 < e.minVisibleKeys)
    (hle : e.minVisibleKeys ≤ e.maxVisibleKeys) (hsm : 8 ≤ o.smCount)
    (hbase : 0 < o.gqaDecodeSplitsBase) :
    0 < gqaSmallTLaunchCapacity g e tokens dtype o := by
  have hgrow : ∀ (ws : List Nat) (capacity : Nat),
      capacity ≤ ws.foldl (fun (capacity window : Nat) =>
        if window < e.minVisibleKeys ∨ e.maxVisibleKeys < window then
          capacity
        else max capacity (gqaSmallTSplitCount g window tokens dtype o))
        capacity := by
    intro ws
    induction ws with
    | nil => intro capacity; exact le_refl capacity
    | cons w ws ih =>
      intro capacity
      refine le_trans ?_ (ih _)
      dsimp only
      split
      · exact le_refl capacity
      · exact le_max_left _ _
  unfold gqaSmallTLaunchCapacity
  rw [List.foldl_cons]
  refine lt_of_lt_of_le ?_ (hgrow _ _)
  rw [if_neg (by omega)]
  exact lt_of_lt_of_le (splitCount_pos g hmin hsm hbase) (le_max_right _ _)

variable {g : GqaGeometry} {int8 : Bool} {capacity : Nat}

/-- The count of active splits is within the launch. -/
theorem activeSplits_le {cap : Nat} :
    gqaSmallTActiveSplits g int8 window capacity tokens cap ≤ capacity := by
  unfold gqaSmallTActiveSplits
  split
  · exact le_refl capacity
  · exact min_le_right _ _

theorem activeSplits_pos {cap : Nat} (hcapacity : 0 < capacity) (hcap : 0 < cap) :
    0 < gqaSmallTActiveSplits g int8 window capacity tokens cap := by
  have hscale := splitScale_pos g
  have hdefault := defaultSplits_pos g window
  have htiles : 0 < 32 / g.decodeSplitScale ∧ 0 < 24 / g.decodeSplitScale := by
    cases g <;> decide
  unfold gqaSmallTActiveSplits
  split
  · exact hcapacity
  · next hwindow =>
    have hpos : 0 < window := Nat.pos_of_ne_zero hwindow
    refine Nat.lt_min.mpr ⟨?_, hcapacity⟩
    split
    · split
      · exact divUp_pos hpos htiles.1
      · split
        · exact divUp_pos hpos htiles.2
        · split
          · exact Nat.lt_min.mpr ⟨by omega, hcap⟩
          · exact hdefault
    · exact hdefault

/-- The segment whose count depends on the cap a caller passes. -/
def EightK (int8 : Bool) (tokens window : Nat) : Prop :=
  int8 = true ∧ tokens = 6 ∧ 5000 < window ∧ window ≤ 8198

/-- Outside it, callers agree whatever cap they pass. -/
theorem activeSplits_cap (h : ¬ EightK int8 tokens window) (cap cap' : Nat) :
    gqaSmallTActiveSplits g int8 window capacity tokens cap =
      gqaSmallTActiveSplits g int8 window capacity tokens cap' := by
  unfold EightK at h
  unfold gqaSmallTActiveSplits
  cases int8 with
  | false => rfl
  | true =>
    have hsegment : ¬ (tokens = 6 ∧ 5000 < window ∧ window ≤ 8198) :=
      fun hs => h ⟨rfl, hs⟩
    simp only [hsegment, if_false]

/-- Inside it, a caller that passes no cap finds no active split. -/
theorem activeSplits_uncapped (h : EightK int8 tokens window) :
    gqaSmallTActiveSplits g int8 window capacity tokens 0 = 0 := by
  obtain ⟨rfl, rfl, hlow, hhigh⟩ := h
  unfold gqaSmallTActiveSplits
  rw [if_neg (by omega), if_pos rfl, if_neg (by omega), if_neg (by omega),
    if_pos ⟨rfl, hlow, hhigh⟩, Nat.min_zero, Nat.zero_min]

-- ============ the key ranges

/-- The keys a split's result attends to. -/
def SplitResult.attends : SplitResult → Nat → Prop
  | .silent, _ => False
  | .neutral, _ => False
  | .keys first last, key => first ≤ key ∧ key < last

variable {active : Nat}

/-- A split attends to the keys of its stretch that are visible: split
`i` has the `i`-th stretch of some positive length, and the active ones
reach the end of the window. -/
theorem splitSelection_stretch {bc : Nat} (lo : Nat)
    (hbc : 0 < bc) (hactive : 0 < active) (hwindow : 0 < window) :
    ∃ size, 0 < size ∧ window ≤ active * size ∧
      ∀ split, split < active → ∀ key,
        (splitSelection bc active window lo split).attends key ↔
        (split * size ≤ key ∧ key < split * size + size) ∧
          lo ≤ key ∧ key < window := by
  by_cases htile : active ≤ divUp window bc
  · refine ⟨divUp (divUp window bc) active * bc,
      Nat.mul_pos (divUp_pos (divUp_pos hwindow hbc) hactive) hbc, ?_, ?_⟩
    · calc window ≤ divUp window bc * bc := le_divUp_mul window hbc
        _ ≤ divUp (divUp window bc) active * active * bc :=
            Nat.mul_le_mul_right bc (le_divUp_mul _ hactive)
        _ = active * (divUp (divUp window bc) active * bc) := by
            rw [mul_comm _ active, mul_assoc]
    · intro split hsplit key
      unfold splitSelection
      rw [if_neg (Nat.not_le.mpr hsplit)]
      simp only [htile, if_true]
      rw [mul_assoc split]
      generalize divUp (divUp window bc) active * bc = size
      split
      · refine ⟨False.elim, fun h => ?_⟩
        omega
      · show _ ∧ _ ↔ _
        omega
  · refine ⟨divUp window active, divUp_pos hwindow hactive, ?_, ?_⟩
    · rw [mul_comm]
      exact le_divUp_mul window hactive
    · intro split hsplit key
      unfold splitSelection
      rw [if_neg (Nat.not_le.mpr hsplit)]
      simp only [htile, if_false, mul_one]
      generalize divUp window active = size
      split
      · refine ⟨False.elim, fun h => ?_⟩
        omega
      · show _ ∧ _ ↔ _
        omega

/-- The ranges of the active splits partition the visible keys. -/
theorem splitSelection_partition {bc : Nat} (lo : Nat)
    (hbc : 0 < bc) (hactive : 0 < active) (hwindow : 0 < window) :
    (∀ split, split < active → ∀ key,
      (splitSelection bc active window lo split).attends key →
        lo ≤ key ∧ key < window) ∧
    (∀ key, lo ≤ key → key < window →
      ∃! split, split < active ∧
        (splitSelection bc active window lo split).attends key) := by
  obtain ⟨size, hsize, hreach, hattends⟩ := splitSelection_stretch lo hbc
    hactive hwindow
  refine ⟨fun split hsplit key hkey => ((hattends split hsplit key).mp hkey).2,
    fun key hlo hkey => ?_⟩
  have hdiv := Nat.div_add_mod key size
  have hmod := Nat.mod_lt key hsize
  have hlt : key / size < active :=
    Nat.div_lt_of_lt_mul (by
      rw [mul_comm]
      exact lt_of_lt_of_le hkey hreach)
  refine ⟨key / size, ⟨hlt, (hattends _ hlt key).mpr ⟨?_, hlo, hkey⟩⟩, ?_⟩
  · rw [mul_comm]
    omega
  · rintro split ⟨hsplit, hin⟩
    obtain ⟨⟨hfrom, hto⟩, -⟩ := (hattends split hsplit key).mp hin
    refine (Nat.div_eq_of_lt_le hfrom ?_).symm
    rw [add_mul, one_mul]
    exact hto

/-- An active split is not silent, and an inactive one is. -/
theorem splitSelection_silent {bc lo split : Nat} :
    splitSelection bc active window lo split = .silent ↔
      active ≤ split := by
  unfold splitSelection
  split
  · next h => exact ⟨fun _ => h, fun _ => rfl⟩
  · next h =>
    refine ⟨fun heq => ?_, fun hle => absurd hle h⟩
    have hwrites : ∀ (c : Prop) [Decidable c] (a b : Nat),
        (if c then SplitResult.neutral else .keys a b) ≠ .silent := by
      intro c _ a b
      split
      · exact nofun
      · exact nofun
    exact absurd heq (hwrites _ _ _)

-- ============ every split and key once

/-- The partial kernel writes exactly the splits the reducer reads, they
are within the launch, and their keys partition the visible ones. -/
structure CoversOnce (l : GqaSmallTLaunch) : Prop where
  written : ∀ split, split < l.splits →
    (l.partialResult split ≠ .silent ↔ split < l.reducedSplits)
  positive : 1 ≤ l.reducedSplits
  launched : l.reducedSplits ≤ l.splits
  inside : ∀ split, split < l.reducedSplits → ∀ key,
    (l.partialResult split).attends key → l.lowestKey ≤ key ∧ key < l.window
  once : ∀ key, l.lowestKey ≤ key → key < l.window →
    ∃! split, split < l.reducedSplits ∧ (l.partialResult split).attends key

/-- A launch on a device of at least eight SMs, for a row with a valid
column and a window inside the envelope. -/
structure InEnvelope (l : GqaSmallTLaunch) : Prop where
  tokens : 1 ≤ l.tokens ∧ l.tokens ≤ 6
  policy : ∃ arch smCount, makeOccupancyPolicy arch smCount =
    .ok l.occupancy ∧ 8 ≤ smCount
  envelope : 0 < l.envelope.minVisibleKeys
  window : l.envelope.minVisibleKeys ≤ l.window ∧
    l.window ≤ l.envelope.maxVisibleKeys
  valid : 0 < l.validTokens
  first : 0 ≤ l.firstPos
  last : 0 ≤ l.lastPos

variable {l : GqaSmallTLaunch}

theorem InEnvelope.occupancy (h : InEnvelope l) :
    8 ≤ l.occupancy.smCount ∧ 0 < l.occupancy.gqaDecodeSplitsBase := by
  obtain ⟨arch, smCount, hpolicy, hsm⟩ := h.policy
  unfold makeOccupancyPolicy at hpolicy
  rw [if_neg (by omega)] at hpolicy
  have heq : l.occupancy = ⟨smCount.toNat, smCount.toNat / 2⟩ :=
    (Except.ok.inj hpolicy).symm
  rw [heq]
  dsimp only
  omega

theorem InEnvelope.splits_pos (h : InEnvelope l) : 0 < l.splits :=
  launchCapacity_pos l.geometry h.envelope
    (le_trans h.window.1 h.window.2) h.occupancy.1 h.occupancy.2

theorem InEnvelope.reduced_pos (h : InEnvelope l) : 0 < l.reducedSplits :=
  activeSplits_pos h.splits_pos (eightKSplitMax_pos h.occupancy.1 _)

/-- In the envelope a block goes on to its split selection. -/
theorem InEnvelope.partialResult (h : InEnvelope l) (split : Nat) :
    l.partialResult split = l.partialSelection split := by
  have hvalid := h.valid
  have hfirst := h.first
  have hlast := h.last
  have hwindow := h.window.2
  unfold GqaSmallTLaunch.window at hwindow
  unfold GqaSmallTLaunch.partialResult
  rw [if_neg (by omega), if_neg (by omega)]

theorem i8KeyBlock_pos (tokens window : Nat) : 0 < i8KeyBlock tokens window := by
  unfold i8KeyBlock
  repeat' split
  all_goals decide

/-- The windows for which the D=128 kernel passes on no cap where the
reducer has one. -/
def MuseEightK (l : GqaSmallTLaunch) : Prop :=
  l.geometry = .gqaMuse ∧ l.dtype = .i8 ∧ l.tokens = 6 ∧
    5000 < l.window ∧ l.window ≤ 8198

/-- Apart from those, the partial kernel selects among exactly the splits
the reducer reads. -/
theorem partialSelection_eq (hnot : ¬ MuseEightK l) :
    ∃ bc, 0 < bc ∧ ∀ split, l.partialSelection split =
      splitSelection bc l.reducedSplits l.window l.lowestKey split := by
  unfold MuseEightK at hnot
  unfold GqaSmallTLaunch.partialSelection GqaSmallTLaunch.reducedSplits
    GqaSmallTLaunch.lowestKey
  by_cases hdim : l.geometry.headDim = 128
  · have hmuse : l.geometry = .gqaMuse := by
      revert hdim
      cases l.geometry <;> decide
    have hsegment : ¬ EightK (decide (l.dtype = .i8)) l.tokens l.window := by
      rintro ⟨hint8, hrest⟩
      exact hnot ⟨hmuse, of_decide_eq_true hint8, hrest⟩
    refine ⟨32, by decide, fun split => ?_⟩
    rw [if_pos hdim, if_pos hdim, activeSplits_cap hsegment]
  · simp only [hdim, if_false]
    cases hdtype : l.dtype with
    | i8 =>
      exact ⟨_, i8KeyBlock_pos _ _, fun split => rfl⟩
    | bf16 =>
      refine ⟨32, by decide, fun split => ?_⟩
      dsimp only
      rw [activeSplits_cap (by rintro ⟨h, -⟩; exact absurd h (by decide))]
      rfl

/-- Among those, every block of the partial kernel is silent. -/
theorem d128_eight_k_silent (h : MuseEightK l) (split : Nat) :
    l.partialSelection split = .silent := by
  obtain ⟨hmuse, hdtype, htokens, hlow, hhigh⟩ := h
  unfold GqaSmallTLaunch.partialSelection
  rw [if_pos (by rw [hmuse]; rfl)]
  rw [activeSplits_uncapped ⟨by rw [hdtype]; rfl, htokens, hlow, hhigh⟩]
  exact splitSelection_silent.mpr (Nat.zero_le split)

/-- Split-KV decode attention covers every visible key exactly once, with
the partial kernel and the reducer agreeing on the splits, for every
profile and every window inside the envelope — except the Muse geometry
with INT8, six columns and 5001 to 8198 keys. -/
theorem covers_once_iff (l : GqaSmallTLaunch) (h : InEnvelope l) :
    CoversOnce l ↔
      ¬ (l.geometry = .gqaMuse ∧ l.dtype = .i8 ∧ l.tokens = 6 ∧
        5000 < l.window ∧ l.window ≤ 8198) := by
  constructor
  · intro hcovers hbad
    have hread := hcovers.positive
    have hsilent := d128_eight_k_silent hbad 0
    have hwritten := (hcovers.written 0 h.splits_pos).mpr hread
    rw [h.partialResult] at hwritten
    exact hwritten hsilent
  · intro hgood
    obtain ⟨bc, hbc, hselection⟩ := partialSelection_eq hgood
    have hwindow : 0 < l.window := Nat.lt_of_lt_of_le h.envelope h.window.1
    have hresult : ∀ split, l.partialResult split =
        splitSelection bc l.reducedSplits l.window l.lowestKey split :=
      fun split => (h.partialResult split).trans (hselection split)
    obtain ⟨hinside, honce⟩ := splitSelection_partition
      l.lowestKey hbc h.reduced_pos hwindow
    refine ⟨fun split _ => ?_, h.reduced_pos, activeSplits_le, ?_, ?_⟩
    · rw [hresult, Ne, splitSelection_silent, Nat.not_le]
    · simpa only [hresult] using hinside
    · simpa only [hresult] using honce

/-- A launch of one window on a device of 170 SMs. -/
def sampleLaunch (geometry : GqaGeometry) (dtype : KVDType)
    (tokens window : Nat) : GqaSmallTLaunch where
  geometry := geometry
  dtype := dtype
  tokens := tokens
  occupancy := ⟨170, 85⟩
  envelope := ⟨window, window⟩
  windowSize := 0
  validTokens := tokens
  firstPos := (window : Int) - tokens
  lastPos := (window : Int) - 1

/-- The 27B geometry with INT8 and six columns over 8000 keys: 42 splits
of 192 keys. -/
theorem covers_once_27b :
    (sampleLaunch .gqa27 .i8 6 8000).reducedSplits = 42 ∧
      CoversOnce (sampleLaunch .gqa27 .i8 6 8000) := by
  refine ⟨by decide +kernel, ?_⟩
  refine (covers_once_iff _ ⟨by decide, ⟨.blackwell120, 170, rfl, by decide⟩,
    by decide, by decide, by decide, by decide, by decide⟩).mpr ?_
  decide

/-- The Muse geometry there: the reducer reads 84 splits, and no split is
written. -/
theorem muse_eight_k_unwritten :
    InEnvelope (sampleLaunch .gqaMuse .i8 6 8000) ∧
      (sampleLaunch .gqaMuse .i8 6 8000).reducedSplits = 84 ∧
      (∀ split, (sampleLaunch .gqaMuse .i8 6 8000).partialResult split =
        .silent) ∧
      ¬ CoversOnce (sampleLaunch .gqaMuse .i8 6 8000) := by
  have hin : InEnvelope (sampleLaunch .gqaMuse .i8 6 8000) :=
    ⟨by decide, ⟨.blackwell120, 170, rfl, by decide⟩, by decide, by decide,
      by decide, by decide, by decide⟩
  have hbad : MuseEightK (sampleLaunch .gqaMuse .i8 6 8000) :=
    ⟨rfl, rfl, rfl, by decide, by decide⟩
  have hsilent : ∀ split,
      (sampleLaunch .gqaMuse .i8 6 8000).partialResult split = .silent :=
    fun split => (hin.partialResult split).trans (d128_eight_k_silent hbad split)
  refine ⟨hin, by decide +kernel, hsilent, fun hcovers => ?_⟩
  exact (hcovers.written 0 hin.splits_pos).mpr hcovers.positive (hsilent 0)

end Ginfer.Ops
