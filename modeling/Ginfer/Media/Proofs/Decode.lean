/-
The frames a video is sampled by, and those that are collected.

The indices are spread evenly over the reported total, each rounded: they
are more than one apart before, unless they are integers, so no two round
to the same (`indicesOf_sorted`). The collection meets the frames in
order, so behind a frame it has exactly the listed ones before it
(`Collecting`).
-/
import Ginfer.Media.Decode

namespace Ginfer.Media

open Ginfer.Lib List

-- ============ the rounding

/-- At most half away. -/
theorem nearbyint_near (x : Rat) :
    x - 1 / 2 ≤ nearbyint x ∧ (nearbyint x : Rat) ≤ x + 1 / 2 := by
  have hlow := Rat.floor_le x
  have hhigh := Rat.lt_floor_add_one x
  push_cast at hhigh
  unfold nearbyint
  dsimp only
  split
  · constructor <;> linarith
  · split
    · push_cast
      constructor <;> linarith
    · split
      · constructor <;> linarith
      · push_cast
        constructor <;> linarith

theorem nearbyint_intCast (n : Int) : nearbyint n = n := by
  unfold nearbyint
  dsimp only
  rw [Rat.floor_intCast, sub_self, if_pos (by norm_num)]

-- ============ the sampling

/-- Increasing indices from 0 to the last frame of a total. -/
structure Sampled (total : Int) (indices : List Int) : Prop where
  increasing : indices.Pairwise (· < ·)
  starts : indices.head? = some 0
  ends : 1 < indices.length → indices.getLast? = some (total - 1)

/-- More than one apart, or integers. -/
theorem indicesOf_sorted {total count : Int} (hcount : 2 ≤ count)
    (htotal : count ≤ total) : (indicesOf total count).Pairwise (· < ·) := by
  unfold indicesOf
  rw [if_neg (by omega), pairwise_map]
  refine pairwise_lt_range.imp fun {i j} hij => ?_
  have hn : (0 : Rat) < (count : Rat) - 1 := by
    have : (2 : Rat) ≤ (count : Rat) := by exact_mod_cast hcount
    linarith
  rcases eq_or_lt_of_le htotal with heq | hlt
  · -- the indices are the frames
    have hexact : ∀ i : Nat, (i : Rat) * (total - 1) / (count - 1)
        = ((i : Int) : Rat) := by
      intro i
      rw [heq, mul_div_assoc, div_self (by rw [← heq]; linarith), mul_one]
      rfl
    rw [hexact, hexact, nearbyint_intCast, nearbyint_intCast]
    exact_mod_cast hij
  · have hstep : (i : Rat) * (total - 1) / (count - 1) + 1
        < (j : Rat) * (total - 1) / (count - 1) := by
      have hgap : (i : Rat) + 1 ≤ j := by exact_mod_cast hij
      have hmore : (count : Rat) + 1 ≤ total := by exact_mod_cast hlt
      rw [div_add' _ _ _ (ne_of_gt hn), div_lt_div_iff_of_pos_right hn]
      nlinarith
    have hlow := (nearbyint_near ((i : Rat) * (total - 1) / (count - 1))).2
    have hhigh := (nearbyint_near ((j : Rat) * (total - 1) / (count - 1))).1
    have : (nearbyint ((i : Rat) * (total - 1) / (count - 1)) : Rat)
        < nearbyint ((j : Rat) * (total - 1) / (count - 1)) := by linarith
    exact_mod_cast this

theorem indicesOf_sampled {total count : Int} (hcount : 1 ≤ count)
    (htotal : count ≤ total) : Sampled total (indicesOf total count) := by
  by_cases hone : count = 1
  · subst hone
    unfold indicesOf
    rw [if_pos rfl]
    exact ⟨pairwise_singleton _ _, rfl, fun h => absurd h (by decide)⟩
  · obtain ⟨n, rfl⟩ : ∃ n : Nat, count = n + 1 :=
      ⟨(count - 1).toNat, by omega⟩
    have hn : n ≠ 0 := by
      rintro rfl
      exact hone rfl
    have hlength : ((n : Int) + 1).toNat = n + 1 := by omega
    refine ⟨indicesOf_sorted (by omega) htotal, ?_, fun _ => ?_⟩
    · unfold indicesOf
      rw [if_neg hone, hlength, range_succ_eq_map, map_cons, List.head?_cons]
      have hzero : ((0 : Nat) : Rat) * (total - 1) / (((n : Int) + 1 : Int) - 1)
          = ((0 : Int) : Rat) := by
        push_cast
        rw [zero_mul, zero_div]
      rw [hzero, nearbyint_intCast]
    · unfold indicesOf
      rw [if_neg hone, hlength, range_succ, map_append,
        map_cons, map_nil, List.getLast?_concat]
      have hlast : (n : Rat) * (total - 1) / (((n : Int) + 1 : Int) - 1)
          = ((total - 1 : Int) : Rat) := by
        have hpos : (n : Rat) ≠ 0 := Nat.cast_ne_zero.mpr hn
        push_cast
        rw [add_sub_cancel_right, mul_div_cancel_left₀ _ hpos]
      rw [hlast, nearbyint_intCast]

theorem sampleIndices_sampled {scale : Int → Rat → Rat → Int} {total : Int}
    {sourceFps targetFps : Rat} {minFrames maxFrames : Int} (htotal : 1 ≤ total)
    (hsource : 0 < sourceFps) (htarget : 0 < targetFps)
    (hmin : 1 ≤ minFrames) (hmax : minFrames ≤ maxFrames) :
    ∃ indices, sampleIndices scale total sourceFps targetFps minFrames maxFrames
        = .ok indices ∧ Sampled total indices := by
  unfold sampleIndices
  rw [if_neg (by
    rintro (h | h | h | h | h)
    · omega
    · exact absurd h (not_le.mpr hsource)
    · exact absurd h (not_le.mpr htarget)
    · omega
    · omega)]
  refine ⟨_, rfl, indicesOf_sampled ?_ ?_⟩
  · unfold sampleCount
    omega
  · unfold sampleCount
    omega

-- ============ the collection

variable {β : Type} {stream : Stream β} {policy : DecodePolicy}
  {indices : List Int}

/-- A picture is the one of the frame at an index. -/
def Shows (stream : Stream β) (index : Int) (picture : β) : Prop :=
  ∃ frame, stream.frames[index.toNat]? = some frame ∧ frame.picture = .ok picture

/-- The indices of frames that come. -/
def presentIndices (stream : Stream β) (indices : List Int) : List Int :=
  indices.filter (· < stream.frames.length)

/-- In front of a frame the collection has the listed frames before it. -/
structure Collecting (stream : Stream β) (indices : List Int)
    (index : Nat) (s : Collected β) : Prop where
  wanted_le : s.wanted ≤ indices.length
  decoded : s.decoded = index
  before : ∀ i ∈ indices.take s.wanted, i < index
  behind : ∀ i ∈ indices.drop s.wanted, (index : Int) ≤ i
  frames : List.Forall₂ (Shows stream) (indices.take s.wanted) s.frames

theorem mapError_ok {picture : Except String β} {b : β}
    (h : picture.mapError DecodeError.library = .ok b) :
    picture = .ok b := by
  cases picture with
  | error message => cases h
  | ok a => exact congrArg Except.ok (Except.ok.inj h)

theorem collectStep_collecting (hsorted : indices.Pairwise (· < ·))
    {s s' : Collected β} {index : Nat} {frame : Frame β} {more : Bool}
    (hframe : stream.frames[index]? = some frame)
    (h : Collecting stream indices index s)
    (hstep : collectStep policy indices s index frame = .ok (s', more)) :
    Collecting stream indices (index + 1) s'
      ∧ more = decide (s'.wanted ≠ indices.length) := by
  unfold collectStep at hstep
  dsimp only at hstep
  by_cases hlisted : indices[s.wanted]? = some (index : Int)
  · rw [if_pos hlisted] at hstep
    split at hstep
    · cases hstep
    · obtain ⟨picture, hpicture, hstep⟩ := bind_ok.mp hstep
      cases hstep
      obtain ⟨hlt, hget⟩ := List.getElem?_eq_some_iff.mp hlisted
      have htake : indices.take (s.wanted + 1)
          = indices.take s.wanted ++ [(index : Int)] := by
        rw [take_add_one, hlisted]
        rfl
      have hdrop : indices.drop s.wanted
          = (index : Int) :: indices.drop (s.wanted + 1) := by
        rw [drop_eq_getElem_cons hlt, hget]
      refine ⟨⟨hlt, rfl, ?_, ?_, ?_⟩, rfl⟩
      · intro i hi
        dsimp only at hi
        rw [htake] at hi
        rcases mem_append.mp hi with hi | hi
        · have := h.before i hi
          push_cast
          omega
        · rw [mem_singleton.mp hi]
          push_cast
          omega
      · intro i hi
        -- the rest is above the index, which comes first
        have hbehind : (indices.drop s.wanted).Pairwise (· < ·) :=
          hsorted.sublist (drop_sublist _ _)
        rw [hdrop] at hbehind
        have := (pairwise_cons.mp hbehind).1 i hi
        push_cast
        omega
      · dsimp only
        rw [htake]
        refine rel_append h.frames
          (List.Forall₂.cons ⟨frame, ?_, mapError_ok hpicture⟩ List.Forall₂.nil)
        rw [Int.toNat_natCast]
        exact hframe
  · rw [if_neg hlisted] at hstep
    cases hstep
    refine ⟨⟨h.wanted_le, rfl, ?_, ?_, h.frames⟩, rfl⟩
    · intro i hi
      have := h.before i hi
      push_cast
      omega
    · intro i hi
      dsimp only at hi
      cases hrest : indices.drop s.wanted with
      | nil =>
        rw [hrest] at hi
        cases hi
      | cons first rest =>
        have hfirst : indices[s.wanted]? = some first := by
          rw [← List.head?_drop, hrest]
          rfl
        have hmem : first ∈ indices.drop s.wanted :=
          hrest ▸ mem_cons_self
        have hle := h.behind first hmem
        have hne : first ≠ (index : Int) :=
          fun heq => hlisted (heq ▸ hfirst)
        have hbehind : (indices.drop s.wanted).Pairwise (· < ·) :=
          hsorted.sublist (drop_sublist _ _)
        rw [hrest] at hi hbehind
        rcases mem_cons.mp hi with rfl | hi
        · push_cast
          omega
        · have := (pairwise_cons.mp hbehind).1 i hi
          push_cast
          omega

/-- What the collection ends with. -/
structure CollectedAll (stream : Stream β) (indices : List Int)
    (s : Collected β) : Prop where
  present : indices.take s.wanted = presentIndices stream indices
  frames : List.Forall₂ (Shows stream) (presentIndices stream indices) s.frames
  unskipped : ∀ i ∈ indices.drop s.wanted, ¬ i < s.decoded

/-- Collecting up to where nothing is missing. -/
theorem Collecting.all {index : Nat} {s : Collected β}
    (h : Collecting stream indices index s)
    (hindex : index ≤ stream.frames.length)
    (hend : s.wanted = indices.length ∨ index = stream.frames.length) :
    CollectedAll stream indices s := by
  have hpresent : indices.take s.wanted = presentIndices stream indices := by
    unfold presentIndices
    conv => rhs; rw [← take_append_drop s.wanted indices]
    rw [filter_append]
    have htake : (indices.take s.wanted).filter
        (fun i => decide (i < (stream.frames.length : Int)))
          = indices.take s.wanted := by
      refine filter_eq_self.mpr fun i hi => ?_
      have := h.before i hi
      exact decide_eq_true (by omega)
    have hdrop : (indices.drop s.wanted).filter
        (fun i => decide (i < (stream.frames.length : Int))) = [] := by
      rcases hend with hall | hlast
      · rw [hall, drop_length]
        rfl
      · refine filter_eq_nil_iff.mpr fun i hi => ?_
        have := h.behind i hi
        rw [decide_eq_true_eq]
        omega
    rw [htake, hdrop, append_nil]
  refine ⟨hpresent, hpresent ▸ h.frames, fun i hi => ?_⟩
  have := h.behind i hi
  rw [h.decoded]
  omega

theorem collectFrom_all (hsorted : indices.Pairwise (· < ·))
    (rest : List (Frame β)) :
    ∀ (index : Nat) (s s' : Collected β),
      stream.frames.drop index = rest → index ≤ stream.frames.length →
        Collecting stream indices index s →
        collectFrom stream policy indices s index rest = .ok s' →
          CollectedAll stream indices s' := by
  induction rest with
  | nil =>
    intro index s s' hrest hindex h hrun
    obtain ⟨_, -, hrun⟩ := bind_ok.mp hrun
    cases hrun
    have := drop_eq_nil_iff.mp hrest
    exact h.all hindex (Or.inr (by omega))
  | cons frame rest ih =>
    intro index s s' hrest hindex h hrun
    have hframe : stream.frames[index]? = some frame := by
      rw [← List.head?_drop, hrest]
      rfl
    have hlt := (List.getElem?_eq_some_iff.mp hframe).1
    obtain ⟨⟨next, more⟩, hstep, hrun⟩ := bind_ok.mp hrun
    obtain ⟨hnext, hmore⟩ := collectStep_collecting hsorted hframe h hstep
    dsimp only at hrun
    split at hrun
    · refine ih (index + 1) next s' ?_ hlt hnext hrun
      rw [← drop_drop, hrest]
      rfl
    · next hstop =>
      cases hrun
      rw [hmore, decide_eq_true_eq, not_not] at hstop
      exact hnext.all hlt (Or.inl hstop)

/-- The start of the collection, for indices that are not negative. -/
theorem collecting_start (hpositive : ∀ i ∈ indices, 0 ≤ i) :
    Collecting stream indices 0 {} where
  wanted_le := Nat.zero_le _
  decoded := rfl
  before := fun _ hi => nomatch hi
  behind := fun i hi => hpositive i hi
  frames := List.Forall₂.nil

-- ============ the video

variable {scale : Int → Rat → Rat → Int} {targetFps : Rat}
  {minFrames maxFrames total : Int}

/-- What a decoded video is made of. -/
structure Decoded (scale : Int → Rat → Rat → Int) (stream : Stream β)
    (total : Int) (targetFps : Rat) (minFrames maxFrames : Int)
    (video : Video β) : Prop where
  fps : video.fps = stream.fps
  indices : sampleIndices scale total stream.fps targetFps minFrames maxFrames
    = .ok video.indices
  frames : List.Forall₂ (Shows stream)
    (presentIndices stream video.indices) video.frames
  enough : min minFrames total ≤ (video.frames.length : Int)

theorem Sampled.nonneg (h : Sampled total indices) : ∀ i ∈ indices, 0 ≤ i := by
  intro i hi
  cases indices with
  | nil => cases hi
  | cons first rest =>
    obtain rfl : first = 0 := Option.some.inj h.starts
    rcases mem_cons.mp hi with rfl | hi
    · exact Int.le_refl _
    · exact Int.le_of_lt ((pairwise_cons.mp h.increasing).1 i hi)

theorem finish_ne_skipped {e : DecodeError}
    (h : stream.finish = .error e) : e ≠ skippedFrame := by
  unfold Stream.finish at h
  split at h
  · cases h
    exact nofun
  · cases h

theorem collectStep_ne_skipped {s : Collected β} {index : Nat}
    {frame : Frame β} {e : DecodeError}
    (h : collectStep policy indices s index frame = .error e) :
    e ≠ skippedFrame := by
  unfold collectStep at h
  dsimp only at h
  split at h
  · split at h
    · cases h
      exact nofun
    · cases hpicture : frame.picture with
      | error message =>
        rw [hpicture] at h
        cases h
        exact nofun
      | ok picture =>
        rw [hpicture] at h
        cases h
  · cases h

/-- The collection does not throw the failure of the check behind it. -/
theorem collectFrom_ne_skipped (rest : List (Frame β)) :
    ∀ (index : Nat) (s : Collected β) (e : DecodeError),
      collectFrom stream policy indices s index rest = .error e →
        e ≠ skippedFrame := by
  induction rest with
  | nil =>
    intro index s e h
    rw [collectFrom] at h
    cases hfinish : stream.finish with
    | error e' =>
      rw [hfinish] at h
      cases h
      exact finish_ne_skipped hfinish
    | ok _ =>
      rw [hfinish] at h
      cases h
  | cons frame rest ih =>
    intro index s e h
    rw [collectFrom] at h
    cases hstep : collectStep policy indices s index frame with
    | error e' =>
      rw [hstep] at h
      cases h
      exact collectStep_ne_skipped hstep
    | ok out =>
      rw [hstep, ok_bind] at h
      dsimp only at h
      by_cases hmore : out.2 = true
      · rw [if_pos hmore] at h
        exact ih _ _ e h
      · rw [if_neg hmore] at h
        cases h

/-- A decoded video, and the failure that does not occur. -/
theorem decodeVideo_cases (htotal : reportedTotal stream policy = .ok total)
    (hsampled : ∀ indices, sampleIndices scale total stream.fps targetFps minFrames
      maxFrames = .ok indices → Sampled total indices) :
    (∀ video, decodeVideo scale stream policy targetFps minFrames maxFrames
        = .ok video → Decoded scale stream total targetFps minFrames maxFrames video)
      ∧ decodeVideo scale stream policy targetFps minFrames maxFrames
        ≠ .error skippedFrame := by
  unfold decodeVideo
  rw [htotal, ok_bind]
  cases hindices : sampleIndices scale total stream.fps targetFps minFrames
      maxFrames with
  | error e =>
    constructor
    · intro video h
      cases h
    · intro h
      cases h
      unfold sampleIndices at hindices
      split at hindices
      · cases hindices
      · cases hindices
  | ok indices =>
    have hsorted := hsampled indices hindices
    rw [ok_bind]
    dsimp only
    by_cases hpixels : stream.codedWidth.toNat * stream.codedHeight.toNat
        ≠ 0 ∧ policy.maxDecodedVideoPixels
          / (stream.codedWidth.toNat * stream.codedHeight.toNat) < indices.length
    · rw [if_pos hpixels]
      constructor
      · intro video h
        cases h
      · intro h
        cases h
    · rw [if_neg hpixels]
      cases hcollect : collectFrom stream policy indices {} 0
          stream.frames with
      | error e =>
        constructor
        · intro video h
          cases h
        · intro h
          exact collectFrom_ne_skipped _ _ _ _ hcollect (Except.error.inj h)
      | ok s =>
        have hall := collectFrom_all hsorted.increasing stream.frames 0
          {} s rfl (Nat.zero_le _) (collecting_start hsorted.nonneg)
          hcollect
        rw [ok_bind]
        by_cases henough : (s.frames.length : Int) < min minFrames total
        · rw [if_pos henough]
          constructor
          · intro video h
            cases h
          · intro h
            have htext := DecodeError.runtimeError.inj (Except.error.inj h)
            exact absurd htext (by decide)
        · rw [if_neg henough]
          have hnone : ¬ ((indices.drop s.wanted).any
              (· < s.decoded)) = true := by
            rw [any_eq_true]
            rintro ⟨i, hi, hlt⟩
            exact hall.unskipped i hi (decide_eq_true_eq.mp hlt)
          rw [if_neg hnone]
          refine ⟨fun video h => ?_, fun h => by cases h⟩
          cases h
          exact ⟨rfl, hindices, hall.frames, Int.not_lt.mp henough⟩

end Ginfer.Media
