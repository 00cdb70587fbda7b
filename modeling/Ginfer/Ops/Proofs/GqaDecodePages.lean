/-
Whether the page table of a split fits its array.

The 64 page ids are those of 4096 keys, and a split whose stretch is not
longer never needs more, wherever it begins (`splitSelection_pages`): its
key blocks divide a page or are one. A stretch is not longer just when
there is an active split for every 4096 keys of the window. For long
windows the number of active splits is that of half the SMs, and between
5001 and 8198 keys, for INT8 with six columns, that of a quarter of them:
a device with few SMs has splits that are too long (`decode_pages_iff`).
-/
import Ginfer.Ops.GqaDecodePages
import Ginfer.Ops.Proofs.GqaCapacity

namespace Ginfer.Ops

open Ginfer.Lib GqaSmallTLaunch

-- ============ the pages

/-- Nothing outside the array is accessed. -/
def GqaSmallTLaunch.PagesFit (l : GqaSmallTLaunch) : Prop :=
  ∀ split first last, l.partialResult split = .keys first last →
    pageCount l.keyBlock first last ≤ pageIds
      ∧ ∀ i ∈ pageAccesses l.keyBlock first last, i < pageIds

/-- A key block divides a page, or is one. -/
def KeyBlock (bc : Nat) : Prop := bc = 32 ∨ bc = 64

theorem pageCount_eq {bc first last : Nat} (hbc : KeyBlock bc) :
    pageCount bc first last = (last - 1) / 64 - first / 64 + 1 := by
  unfold pageCount firstPage firstTile pagedKVPageShift
  rw [Nat.shiftRight_eq_div_pow, Nat.shiftRight_eq_div_pow]
  rcases hbc with rfl | rfl
  · rw [show 2 ^ 6 = 64 by rfl]
    omega
  · rw [show 2 ^ 6 = 64 by rfl]
    omega

/-- The pages of the key blocks are among those that are filled. -/
theorem pageAccesses_lt {bc first last : Nat} (hbc : KeyBlock bc) :
    ∀ i ∈ pageAccesses bc first last, i < pageCount bc first last := by
  intro i hi
  unfold pageAccesses at hi
  rcases List.mem_append.mp hi with hi | hi
  · exact List.mem_range.mp hi
  · obtain ⟨kb, hkb, rfl⟩ := List.mem_map.mp hi
    have hkb := List.mem_range.mp hkb
    -- the block begins before the last key
    have hbefore : firstTile bc first + kb * bc ≤ last - 1 := by
      have hpos : 0 < bc := by
        rcases hbc with rfl | rfl <;> decide
      by_contra hnot
      have hle : keyBlocks bc first last ≤ kb :=
        divUp_le hpos (by omega)
      omega
    unfold pageCount
    have hpage : (firstTile bc first + kb * bc) >>> pagedKVPageShift
        ≤ (last - 1) >>> pagedKVPageShift := by
      rw [Nat.shiftRight_eq_div_pow, Nat.shiftRight_eq_div_pow]
      exact Nat.div_le_div_right hbefore
    omega

-- ============ the splits

/-- Splits of at most 4096 keys: the range of a split needs no more than
the pages there are. -/
theorem splitSelection_pages {bc active window lo split first last : Nat}
    (hbc : KeyBlock bc) (hcovers : window ≤ 4096 * active)
    (h : splitSelection bc active window lo split = .keys first last) :
    first < last ∧ pageCount bc first last ≤ pageIds := by
  have hpos : 0 < bc := by
    rcases hbc with rfl | rfl <;> decide
  unfold splitSelection at h
  by_cases hsilent : active ≤ split
  · rw [if_pos hsilent] at h
    cases h
  rw [if_neg hsilent] at h
  have hkeys : ∀ start size : Nat,
      (if min (start + size) window ≤ max start lo then SplitResult.neutral
        else .keys (max start lo) (min (start + size) window))
          = .keys first last →
        (start / 64 * 64 = start ∨ start / bc * bc = start ∧ size + bc ≤ 4096
          ∨ size + 64 ≤ 4096) → size ≤ 4096 →
          first < last ∧ pageCount bc first last ≤ pageIds := by
    intro start size heq hfits hsize
    split at heq
    · cases heq
    · obtain ⟨rfl, rfl⟩ := SplitResult.keys.inj heq
      rw [pageCount_eq hbc]
      unfold pageIds
      rcases hbc with rfl | rfl <;> omega
  dsimp only at h
  by_cases htile : active ≤ divUp window bc
  · simp only [htile, if_true] at h
    -- a stretch of whole key blocks, of at most 4096 keys
    have hblocks : divUp (divUp window bc) active * bc ≤ 4096 := by
      have htiles : divUp window bc ≤ 4096 / bc * active := by
        refine divUp_le hpos (hcovers.trans (le_of_eq ?_))
        rcases hbc with rfl | rfl <;> omega
      have hunits := divUp_le (by omega : 0 < active) htiles
      calc divUp (divUp window bc) active * bc
          ≤ 4096 / bc * bc := Nat.mul_le_mul_right bc hunits
        _ = 4096 := by rcases hbc with rfl | rfl <;> rfl
    rw [mul_assoc] at h
    have hsize := Nat.mul_mod_left (divUp (divUp window bc) active) bc
    have hstart : split * (divUp (divUp window bc) active * bc) % bc = 0 := by
      rw [← mul_assoc]
      exact Nat.mul_mod_left _ _
    refine hkeys _ _ h ?_ hblocks
    rcases Nat.lt_or_eq_of_le hblocks with hshort | hfull
    · refine .inr (.inl ?_)
      generalize split * (divUp (divUp window bc) active * bc) = start
        at hstart ⊢
      generalize divUp (divUp window bc) active * bc = size at hshort hsize ⊢
      rcases hbc with rfl | rfl <;> omega
    · rw [hfull]
      omega
  · simp only [htile, if_false, mul_one] at h
    -- fewer key blocks than splits: a stretch is within a key block
    have hunits : divUp window active ≤ bc := by
      refine divUp_le (by omega) ?_
      calc window ≤ divUp window bc * bc := le_divUp_mul window hpos
        _ ≤ bc * active := by
          rw [mul_comm]
          exact Nat.mul_le_mul_left bc (by omega)
    have hbound : bc ≤ 64 := by
      rcases hbc with rfl | rfl <;> decide
    exact hkeys _ _ h (.inr (.inr (by omega))) (by omega)

/-- A window of at most 4096 keys. -/
theorem splitSelection_short {bc active window lo split first last : Nat}
    (hbc : KeyBlock bc) (hwindow : window ≤ 4096)
    (h : splitSelection bc active window lo split = .keys first last) :
    first < last ∧ pageCount bc first last ≤ pageIds := by
  refine splitSelection_pages hbc ?_ h
  have hactive : 0 < active := by
    unfold splitSelection at h
    split at h
    · cases h
    · omega
  omega

-- ============ the counts

/-- There is a default split for every 4096 keys. -/
theorem defaultSplits_cover (g : GqaGeometry) {window : Nat}
    (hlong : 4096 < window) (hmax : window ≤ 262144) :
    window ≤ 4096 * gqaSmallTDefaultSplits g window := by
  have hcover : ∀ target, 0 < target → target ≤ 480 →
      window ≤ 4096 * min (max (divUp window target)
        (4 * g.decodeSplitScale)) decodeSplitsMax := by
    intro target hpos hle
    have hdiv := le_divUp_mul window hpos
    have hbound : divUp window target * target ≤ divUp window target * 480 :=
      Nat.mul_le_mul_left _ hle
    unfold decodeSplitsMax
    omega
  unfold gqaSmallTDefaultSplits
  dsimp only
  rw [if_neg (by omega)]
  split
  · exact hcover _ (by cases g <;> decide) (by cases g <;> decide)
  · split
    · exact hcover _ (by cases g <;> decide) (by cases g <;> decide)
    · exact hcover _ (by cases g <;> decide) (by cases g <;> decide)

/-- Beyond 4096 keys the bound is at least 64, or all the splits there
are. -/
theorem le_splitUpperBound (g : GqaGeometry) {window : Nat}
    (hlong : 4096 < window) (decodeSplits : Nat) :
    min 64 decodeSplits ≤ gqaSmallTSplitUpperBound g window decodeSplits := by
  have hfirst : gqaSmallTSplitUpperBound g 4096 decodeSplits
      ≤ gqaSmallTSplitUpperBound g window decodeSplits :=
    splitUpperBound_mono g (by decide) (by omega) decodeSplits
  refine le_trans ?_ hfirst
  rw [splitUpperBound_eq g (by decide)]
  have hsplits : 64 ≤ includeTier 4096 4096 (64 / g.decodeSplitScale)
      (4 * g.decodeSplitScale) := by
    cases g <;> decide
  simp only [lt_irrefl, if_false, Nat.reduceLT]
  omega

section

variable {g : GqaGeometry} {dtype : KVDType} {o : OccupancyPolicy}
  {window tokens : Nat}

/-- A split for every 4096 keys of a window beyond 4096. -/
theorem splitCount_cover (g : GqaGeometry) (dtype : KVDType)
    (o : OccupancyPolicy) (tokens : Nat) (hlong : 4096 < window)
    (hmax : window ≤ 262144)
    (hbase : window ≤ 4096 * (o.gqaDecodeSplitsBase * g.decodeSplitScale))
    (height : dtype = .i8 → window ≤ 8198 →
      window ≤ 4096 * (o.smCount / 4 * g.decodeSplitScale)) :
    window ≤ 4096 * gqaSmallTSplitCount g window tokens dtype o := by
  unfold gqaSmallTSplitCount
  rw [if_neg fun h => by omega, if_neg fun h => by omega]
  split
  · next h =>
    have hcap := height h.1 h.2.2.2
    have hpos : 0 < 192 / g.decodeSplitScale := by
      cases g <;> decide
    have hle : 192 / g.decodeSplitScale ≤ 192 := Nat.div_le_self _ _
    have hdiv := le_divUp_mul window hpos
    have hbound := Nat.mul_le_mul_left
      (divUp window (192 / g.decodeSplitScale)) hle
    unfold gqaEightKSplitMax
    omega
  · have hlow := le_splitUpperBound g hlong
      (gqaRuntimeDecodeSplits o g.decodeSplitScale)
    unfold gqaRuntimeDecodeSplits decodeSplitsMax at hlow ⊢
    omega

/-- The same of the active splits, of a launch whose capacity covers a
larger window. -/
theorem activeSplits_cover {int8 : Bool} {capacity cap : Nat}
    (hlong : 4096 < window) (hmax : window ≤ 262144)
    (hcapacity : window ≤ 4096 * capacity)
    (hcap : EightK int8 tokens window → window ≤ 4096 * cap) :
    window
      ≤ 4096 * gqaSmallTActiveSplits g int8 window capacity tokens cap := by
  have hdefault := defaultSplits_cover g hlong hmax
  unfold gqaSmallTActiveSplits
  rw [if_neg (by omega)]
  dsimp only
  cases int8 with
  | false =>
    rw [if_neg Bool.false_ne_true]
    omega
  | true =>
    rw [if_pos rfl, if_neg fun h => by omega, if_neg fun h => by omega]
    split
    · next h =>
      have hcap := hcap ⟨rfl, h⟩
      have hpos : 0 < 192 / g.decodeSplitScale := by
        cases g <;> decide
      have hle : 192 / g.decodeSplitScale ≤ 192 := Nat.div_le_self _ _
      have hdiv := le_divUp_mul window hpos
      have hbound := Nat.mul_le_mul_left
        (divUp window (192 / g.decodeSplitScale)) hle
      omega
    · omega

end

-- ============ the launches

/-- The largest window the splits of a device cover, and the one they cover
with INT8 and six columns up to 8198 keys. -/
structure Covered (g : GqaGeometry) (dtype : KVDType) (o : OccupancyPolicy)
    (visible : Nat) : Prop where
  base : visible ≤ 4096 * (o.gqaDecodeSplitsBase * g.decodeSplitScale)
  eightK : dtype = .i8 →
    min visible 8198 ≤ 4096 * (o.smCount / 4 * g.decodeSplitScale)

/-- The split selection of a launch, with the cap of the count it passes:
that of the launcher, or none. -/
theorem partialSelection_capped (l : GqaSmallTLaunch) (split : Nat) :
    KeyBlock l.keyBlock ∧ ∃ cap, (cap = l.eightKSplitMax ∨ cap = 0)
      ∧ l.partialSelection split = splitSelection l.keyBlock
        (gqaSmallTActiveSplits l.geometry (l.dtype = .i8) l.window l.splits
        l.tokens cap) l.window l.lowestKey split := by
  have hblock : ∀ tokens window, KeyBlock (i8KeyBlock tokens window) := by
    intro tokens window
    unfold i8KeyBlock KeyBlock
    split
    · split
      · exact .inl rfl
      · split
        · exact .inl rfl
        · split
          · exact .inr rfl
          · exact .inl rfl
    · exact .inl rfl
  unfold keyBlock partialSelection
  by_cases hdim : l.geometry.headDim = 128
  · rw [if_pos hdim]
    exact ⟨.inl rfl, 0, .inr rfl, if_pos hdim⟩
  · have hlowest : l.lowestKey = 0 := if_neg hdim
    rw [if_neg hdim, if_neg hdim, hlowest]
    cases hdtype : l.dtype with
    | i8 => exact ⟨hblock _ _, _, .inl rfl, rfl⟩
    | bf16 => exact ⟨.inl rfl, 0, .inr rfl, rfl⟩

/-- Where the splits of the device cover the envelope, the pages fit. -/
theorem Covered.pagesFit {l : GqaSmallTLaunch} {visible : Nat}
    (h : Covered l.geometry l.dtype l.occupancy visible)
    (hvisible : visible ≤ gqaAttentionMaximumVisibleKeys)
    (hle : l.envelope.minVisibleKeys ≤ l.envelope.maxVisibleKeys)
    (hmax : l.envelope.maxVisibleKeys ≤ visible) : l.PagesFit := by
  intro split first last hkeys
  unfold partialResult at hkeys
  split at hkeys
  · cases hkeys
  · split at hkeys
    · cases hkeys
    · next hpositions =>
      obtain ⟨hblock, cap, hcap, hselection⟩ :=
        partialSelection_capped l split
      rw [hselection] at hkeys
      have hwindow : l.window ≤ l.envelope.maxVisibleKeys := by
        unfold window
        omega
      suffices hfits : pageCount l.keyBlock first last ≤ pageIds from
        ⟨hfits, fun i hi => lt_of_lt_of_le (pageAccesses_lt hblock i hi) hfits⟩
      by_cases hlong : l.window ≤ 4096
      · exact (splitSelection_short hblock hlong hkeys).2
      · refine (splitSelection_pages hblock ?_ hkeys).2
        have hbase := h.base
        have height := h.eightK
        unfold gqaAttentionMaximumVisibleKeys at hvisible
        have hcount := splitCount_cover l.geometry l.dtype l.occupancy l.tokens
          (by omega : 4096 < l.envelope.maxVisibleKeys) (by omega)
          (by omega) fun hi8 hshort => by
            have := height hi8
            omega
        have hcapacity := (launchCapacity_max l.geometry l.tokens l.dtype
          l.occupancy hle).1 l.envelope.maxVisibleKeys ⟨hle, le_refl _⟩
        refine activeSplits_cover (by omega) (by omega) ?_ ?_
        · show l.window ≤ 4096 * l.splits
          unfold splits
          omega
        · intro height8
          rcases hcap with rfl | rfl
          · have := height (of_decide_eq_true height8.1)
            have hshort := height8.2.2.2
            unfold eightKSplitMax gqaEightKSplitMax
            omega
          · -- without a cap no split is active there
            exfalso
            rw [activeSplits_uncapped height8] at hkeys
            unfold splitSelection at hkeys
            rw [if_pos (Nat.zero_le _)] at hkeys
            cases hkeys

-- ============ long splits

/-- A launch of some columns at the end of one window. -/
def windowLaunch (g : GqaGeometry) (dtype : KVDType) (o : OccupancyPolicy)
    (tokens window : Nat) : GqaSmallTLaunch where
  geometry := g
  dtype := dtype
  tokens := tokens
  occupancy := o
  envelope := ⟨window, window⟩
  windowSize := 0
  validTokens := tokens
  firstPos := (window : Int) - tokens
  lastPos := (window : Int) - 1

section

variable {g : GqaGeometry} {dtype : KVDType} {o : OccupancyPolicy}
  {tokens window : Nat}

/-- The capacity of one window is its count. -/
theorem windowLaunch_splits :
    (windowLaunch g dtype o tokens window).splits
      = gqaSmallTSplitCount g window tokens dtype o := by
  obtain ⟨w, hw, heq⟩ := (launchCapacity_max g (e := ⟨window, window⟩) tokens
    dtype o (le_refl _)).2
  have hsame : w = window := le_antisymm hw.2 hw.1
  rw [hsame] at heq
  exact heq

theorem windowLaunch_partial (g : GqaGeometry) (dtype : KVDType)
    (o : OccupancyPolicy) (htokens : 1 ≤ tokens) (hwindow : tokens ≤ window)
    (split : Nat) :
    (windowLaunch g dtype o tokens window).partialResult split
      = (windowLaunch g dtype o tokens window).partialSelection split := by
  unfold partialResult windowLaunch
  dsimp only
  rw [if_neg (by omega), if_neg (by omega)]

/-- Fewer active splits than one for 4096 keys: the first one has more
pages than fit. -/
theorem splitSelection_long {bc active window : Nat} (hbc : KeyBlock bc)
    (hactive : 0 < active) (hlong : 4096 * active < window) :
    ∃ last, splitSelection bc active window 0 0 = .keys 0 last
      ∧ pageIds < pageCount bc 0 last := by
  have hpos : 0 < bc := by
    rcases hbc with rfl | rfl <;> decide
  have htiles := le_divUp_mul window hpos
  have hmany : active ≤ divUp window bc := by
    rcases hbc with rfl | rfl <;> omega
  have hblocks : 4096 < divUp (divUp window bc) active * bc := by
    have hunits := le_divUp_mul (divUp window bc) hactive
    by_contra hnot
    have hfew : window ≤ divUp (divUp window bc) active * bc * active := by
      calc window ≤ divUp window bc * bc := htiles
        _ ≤ divUp (divUp window bc) active * active * bc :=
          Nat.mul_le_mul_right bc hunits
        _ = divUp (divUp window bc) active * bc * active := by
          rw [mul_assoc, mul_comm active, mul_assoc]
    have := Nat.mul_le_mul_right active (Nat.not_lt.mp hnot)
    omega
  refine ⟨min (divUp (divUp window bc) active * bc) window, ?_, ?_⟩
  · unfold splitSelection
    rw [if_neg (by omega)]
    simp only [hmany, if_true, zero_mul, zero_add, Nat.max_self]
    rw [if_neg (by omega)]
  · rw [pageCount_eq hbc]
    unfold pageIds
    omega

theorem windowLaunch_lowestKey :
    (windowLaunch g dtype o tokens window).lowestKey = 0 := by
  unfold lowestKey
  split
  · exact if_pos (Int.le_refl 0)
  · rfl

theorem windowLaunch_window :
    (windowLaunch g dtype o tokens window).window = window := by
  show ((window : Int) - 1 + 1).toNat = window
  omega

/-- A launch with fewer than a split for 4096 keys. -/
theorem windowLaunch_overflows {active : Nat} (htokens : 1 ≤ tokens)
    (hwindow : tokens ≤ window) (hactive : 0 < active)
    (hlong : 4096 * active < window)
    (hselection : ∀ split,
      (windowLaunch g dtype o tokens window).partialSelection split
        = splitSelection (windowLaunch g dtype o tokens window).keyBlock
        active window 0 split) :
    ¬ (windowLaunch g dtype o tokens window).PagesFit := by
  intro hfits
  obtain ⟨last, hkeys, hover⟩ := splitSelection_long
    (partialSelection_capped (windowLaunch g dtype o tokens window) 0).1
    hactive hlong
  have hresult := windowLaunch_partial g dtype o htokens hwindow 0
  rw [hselection, hkeys] at hresult
  have := (hfits 0 0 last hresult).1
  omega

/-- One column is over the default splits, or over all of them. -/
theorem activeSplits_one (g : GqaGeometry) {int8 : Bool}
    {window capacity cap : Nat} (hwindow : window ≠ 0) :
    gqaSmallTActiveSplits g int8 window capacity 1 cap
      = min (gqaSmallTDefaultSplits g window) capacity := by
  unfold gqaSmallTActiveSplits
  rw [if_neg hwindow]
  dsimp only
  cases int8 with
  | false => rw [if_neg Bool.false_ne_true]
  | true =>
    rw [if_pos rfl, if_neg fun h => by omega, if_neg fun h => by omega,
      if_neg fun h => by omega]

/-- One column beyond what half the SMs cover. -/
theorem windowLaunch_base (hsplits : 0 < o.gqaDecodeSplitsBase)
    (hlong : 4096 < 4096 * (o.gqaDecodeSplitsBase * g.decodeSplitScale) + 1)
    (hmax : 4096 * (o.gqaDecodeSplitsBase * g.decodeSplitScale) + 1 ≤ 262144) :
    ¬ (windowLaunch g dtype o 1
      (4096 * (o.gqaDecodeSplitsBase * g.decodeSplitScale) + 1)).PagesFit := by
  have hpos : 0 < o.gqaDecodeSplitsBase * g.decodeSplitScale :=
    Nat.mul_pos hsplits (splitScale_pos g)
  generalize hactive : o.gqaDecodeSplitsBase * g.decodeSplitScale = active
    at hlong hmax hpos ⊢
  refine windowLaunch_overflows (le_refl 1) (by omega) hpos
    (by omega) fun split => ?_
  obtain ⟨-, cap, -, hselection⟩ := partialSelection_capped
    (windowLaunch g dtype o 1 (4096 * active + 1)) split
  rw [hselection, windowLaunch_lowestKey, windowLaunch_window]
  congr 1
  rw [windowLaunch_splits]
  -- the count of one column is that of the policy, capped by the splits
  have hcount : gqaSmallTSplitCount g (4096 * active + 1) 1 dtype o
      = active := by
    have hlow := le_splitUpperBound g (by omega : 4096 < 4096 * active + 1)
      (gqaRuntimeDecodeSplits o g.decodeSplitScale)
    have hruntime : gqaRuntimeDecodeSplits o g.decodeSplitScale = active := by
      unfold gqaRuntimeDecodeSplits decodeSplitsMax
      omega
    have hhigh : gqaSmallTSplitUpperBound g (4096 * active + 1)
        (gqaRuntimeDecodeSplits o g.decodeSplitScale)
          ≤ gqaRuntimeDecodeSplits o g.decodeSplitScale := by
      rw [splitUpperBound_eq g (by omega)]
      exact min_le_right _ _
    unfold gqaSmallTSplitCount
    rw [if_neg fun h => by omega, if_neg fun h => by omega,
      if_neg fun h => by omega]
    omega
  have hdefault := defaultSplits_cover g
    (by omega : 4096 < 4096 * active + 1) hmax
  show gqaSmallTActiveSplits g (dtype = .i8) (4096 * active + 1)
    (gqaSmallTSplitCount g (4096 * active + 1) 1 dtype o) 1 cap = active
  rw [hcount, activeSplits_one g (by omega)]
  omega

/-- Six columns with INT8 on a device with a split for every eight of its
SMs, and just more than two. -/
theorem windowLaunch_eightK (hcap : o.smCount / 4 = 2) :
    ¬ (windowLaunch .gqa27 .i8 o 6 8193).PagesFit := by
  refine windowLaunch_overflows (by decide) (by decide)
    (show 0 < 2 by decide) (by decide) fun split => ?_
  have hsplits : (windowLaunch .gqa27 .i8 o 6 8193).splits = 2 := by
    rw [windowLaunch_splits]
    unfold gqaSmallTSplitCount gqaEightKSplitMax
    rw [hcap]
    rfl
  unfold partialSelection
  rw [windowLaunch_window, hsplits]
  have hactive : gqaSmallTActiveSplits .gqa27 true 8193 2 6
      (windowLaunch .gqa27 .i8 o 6 8193).eightKSplitMax = 2 := by
    unfold eightKSplitMax gqaEightKSplitMax
    show gqaSmallTActiveSplits .gqa27 true 8193 2 6 (o.smCount / 4 * 1) = 2
    rw [hcap]
    rfl
  show splitSelection _ (gqaSmallTActiveSplits .gqa27 true 8193 2 6
    (windowLaunch .gqa27 .i8 o 6 8193).eightKSplitMax) 8193 0 split = _
  rw [hactive]
  rfl

end

/-- The pages of every split of every launch over at most some visible keys
fit just where half the SMs have a split for every 4096 of the keys and,
with INT8, a quarter of them one for every 4096 of the keys up to 8198. A
single launch need only be covered over its own envelope. -/
theorem decode_pages_iff (g : GqaGeometry) (dtype : KVDType) (arch : SmArch)
    (smCount : Int) (o : OccupancyPolicy) (visible : Nat)
    (ho : makeOccupancyPolicy arch smCount = .ok o) (hsm : 8 ≤ smCount)
    (hvisible : visible ≤ gqaAttentionMaximumVisibleKeys) :
    ((∀ l : GqaSmallTLaunch, l.geometry = g → l.dtype = dtype →
      l.occupancy = o → 1 ≤ l.tokens → l.tokens ≤ 6 →
        0 < l.envelope.minVisibleKeys →
          l.envelope.minVisibleKeys ≤ l.envelope.maxVisibleKeys →
            l.envelope.maxVisibleKeys ≤ visible → l.PagesFit)
      ↔ visible ≤ 4096 * (smCount.toNat / 2 * g.decodeSplitScale)
        ∧ (dtype = .i8 → min visible 8198
          ≤ 4096 * (smCount.toNat / 4 * g.decodeSplitScale))) ∧
    ∀ l : GqaSmallTLaunch,
      l.envelope.minVisibleKeys ≤ l.envelope.maxVisibleKeys →
        l.envelope.maxVisibleKeys ≤ gqaAttentionMaximumVisibleKeys →
          Covered l.geometry l.dtype l.occupancy l.envelope.maxVisibleKeys →
            l.PagesFit := by
  refine ⟨?_, fun l hle hmax hcovered =>
    hcovered.pagesFit hmax hle (Nat.le_refl _)⟩
  unfold makeOccupancyPolicy at ho
  rw [if_neg (by omega)] at ho
  cases ho
  constructor
  · intro hall
    constructor
    · by_contra hnot
      have hscale := splitScale_pos g
      have hhalf : 4 ≤ smCount.toNat / 2 := by omega
      have hsplits : 4 ≤ smCount.toNat / 2 * g.decodeSplitScale :=
        hhalf.trans (Nat.le_mul_of_pos_right _ hscale)
      unfold gqaAttentionMaximumVisibleKeys at hvisible
      refine @windowLaunch_base g dtype ⟨smCount.toNat, smCount.toNat / 2⟩
        (Nat.lt_of_lt_of_le (by decide) hhalf) ?_ ?_ ?_
      · show 4096 < 4096 * (smCount.toNat / 2 * g.decodeSplitScale) + 1
        omega
      · show 4096 * (smCount.toNat / 2 * g.decodeSplitScale) + 1 ≤ 262144
        omega
      · refine hall _ rfl rfl rfl (Nat.le_refl 1) (show 1 ≤ 6 by decide)
          (Nat.succ_pos _) (Nat.le_refl _) ?_
        · show 4096 * (smCount.toNat / 2 * g.decodeSplitScale) + 1 ≤ visible
          omega
    · rintro rfl
      by_contra hnot
      have hquarter : 2 ≤ smCount.toNat / 4 := by omega
      -- twice the splits would cover the 8198 keys
      obtain rfl : g = .gqa27 := by
        cases g with
        | gqa27 => rfl
        | gqa35 =>
          exact absurd (show 8198 ≤ 4096 * (smCount.toNat / 4 * 2) by omega)
            fun h => hnot ((Nat.min_le_right _ _).trans h)
        | gqaMuse =>
          exact absurd (show 8198 ≤ 4096 * (smCount.toNat / 4 * 2) by omega)
            fun h => hnot ((Nat.min_le_right _ _).trans h)
      have hshort : ¬ min visible 8198 ≤ 4096 * (smCount.toNat / 4 * 1) :=
        hnot
      refine windowLaunch_eightK (o := ⟨smCount.toNat, smCount.toNat / 2⟩)
        (show smCount.toNat / 4 = 2 by omega) ?_
      refine hall _ rfl rfl rfl (show 1 ≤ 6 by decide) (Nat.le_refl 6)
        (show 0 < 8193 by decide) (Nat.le_refl _) ?_
      show 8193 ≤ visible
      omega
  · rintro ⟨hbase, height⟩ l rfl rfl ho - - - hle hmax
    have hcovered : Covered l.geometry l.dtype l.occupancy visible := by
      rw [ho]
      exact ⟨hbase, height⟩
    exact hcovered.pagesFit hvisible hle hmax

/-- A device of 170 SMs, for which the array is sized. -/
theorem decode_pages_170 :
    (windowLaunch .gqa27 .i8 ⟨170, 85⟩ 6 262144).PagesFit :=
  (decode_pages_iff .gqa27 .i8 .blackwell120 170 ⟨170, 85⟩ 262144 rfl
    (by decide) (Nat.le_refl _)).1.mpr ⟨by decide, fun _ => by decide⟩
    (windowLaunch .gqa27 .i8 ⟨170, 85⟩ 6 262144) rfl rfl rfl (by decide)
    (by decide) (by decide) (by decide) (by decide)

/-- A device of 76 SMs has 38 splits: with a key more than 155648 the first
of them needs a 65th page. -/
theorem decode_pages_76 :
    makeOccupancyPolicy .ada89 76 = .ok ⟨76, 38⟩
      ∧ ¬ (windowLaunch .gqa27 .bf16 ⟨76, 38⟩ 1 155649).PagesFit :=
  ⟨rfl, windowLaunch_base (by decide) (by decide) (by decide)⟩

end Ginfer.Ops
