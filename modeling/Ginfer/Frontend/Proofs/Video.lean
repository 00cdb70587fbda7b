/-
The timestamps of the segments of a video.

The frames are padded after what came of them, the indices after all that
were asked for. The pairs of both agree while the frames end with a pair
or are all there (`timestamps_iff`): with an odd number of frames, and
indices behind them, the last segment shows one frame twice and takes its
time from that frame and the next index.
-/
import Ginfer.Media.Proofs.Decode
import Ginfer.Frontend.Video

namespace Ginfer.Frontend

open Ginfer.Lib Ginfer.Media List

-- ============ the pairs

section

variable {α δ : Type}

/-- The pairs of a list, and those behind it. -/
theorem temporalPairs_add (k : Nat) (rest : List α) :
    ∀ (m : Nat) (l : List α), l.length = 2 * m →
      temporalPairs (m + k) (l ++ rest)
        = temporalPairs m l ++ temporalPairs k rest := by
  intro m
  induction m with
  | zero =>
    intro l hl
    obtain rfl := length_eq_zero_iff.mp hl
    rw [Nat.zero_add]
    rfl
  | succ m ih =>
    intro l hl
    match l, hl with
    | [], hl => simp at hl
    | [_], hl => simp at hl; omega
    | a :: b :: l, hl =>
      have hlength : l.length = 2 * m := by simp at hl; omega
      rw [cons_append, cons_append, Nat.add_right_comm, temporalPairs,
        temporalPairs, ih l hlength, cons_append]

/-- Two pairs whose elements are related. -/
def OnPairs (r : α → δ → Prop) (p : α × α) (q : δ × δ) : Prop :=
  r p.1 q.1 ∧ r p.2 q.2

theorem temporalPairs_related {r : α → δ → Prop} :
    ∀ (m : Nat) {l : List α} {l' : List δ}, List.Forall₂ r l l' →
      List.Forall₂ (OnPairs r) (temporalPairs m l) (temporalPairs m l')
  | 0, _, _, _ => by
    rw [temporalPairs, temporalPairs]
    · exact List.Forall₂.nil
    all_goals exact nofun
  | _ + 1, _, _, .nil => List.Forall₂.nil
  | _ + 1, _, _, .cons _ .nil => List.Forall₂.nil
  | m + 1, _, _, .cons hx (.cons hy h) =>
    List.Forall₂.cons ⟨hx, hy⟩ (temporalPairs_related m h)

variable {l : List α}

theorem padTemporal_even (h : l.length % 2 = 0) : padTemporal l = l :=
  if_neg (not_not.mpr h)

theorem padTemporal_odd (h : l.length % 2 ≠ 0) :
    padTemporal l = l ++ l.getLast?.toList :=
  if_pos h

theorem padTemporal_related {r : α → δ → Prop} {l' : List δ}
    (h : List.Forall₂ r l l') :
    List.Forall₂ r (padTemporal l) (padTemporal l') := by
  have hlength := h.length_eq
  by_cases heven : l.length % 2 = 0
  · rw [padTemporal_even heven, padTemporal_even (hlength ▸ heven)]
    exact h
  · rw [padTemporal_odd heven, padTemporal_odd (hlength ▸ heven)]
    refine rel_append h ?_
    -- both have a last element, and the last ones are related
    have hreverse : List.Forall₂ r l.reverse l'.reverse :=
      rel_reverse h
    rw [List.getLast?_eq_head?_reverse, List.getLast?_eq_head?_reverse]
    generalize l.reverse = a at hreverse ⊢
    generalize l'.reverse = b at hreverse ⊢
    cases hreverse with
    | nil => exact List.Forall₂.nil
    | cons hlast _ => exact List.Forall₂.cons hlast List.Forall₂.nil

/-- What comes first comes first in what is padded. -/
theorem padTemporal_take (l : List α) : ∃ rest, padTemporal l = l ++ rest := by
  unfold padTemporal
  split
  · exact ⟨_, rfl⟩
  · exact ⟨[], (append_nil l).symm⟩

end

-- ============ the timestamps

variable {β γ ε : Type}

/-- The mean of a pair of indices, divided by the rate. -/
def timeOf (fps : Rat) (pair : Int × Int) : Rat :=
  ((pair.1 + pair.2 : Int) : Rat) / (2 * fps)

variable {indices : List Int}

/-- The timestamps of a video are those of its segments' frames, or else
the last of them is not: `before` are the frames of the pairs in front. -/
theorem times_iff {fps : Rat} (hfps : 0 < fps)
    (hsorted : indices.Pairwise (· < ·)) {k : Nat} (hk : k ≤ indices.length) :
    (temporalPairs ((k + 1) / 2) (padTemporal indices)).map (timeOf fps)
        = (temporalPairs ((k + 1) / 2) (padTemporal (indices.take k))).map
        (timeOf fps)
      ↔ k = indices.length ∨ k % 2 = 0 := by
  have hlength : (indices.take k).length = k := by
    rw [length_take]
    omega
  by_cases hall : k = indices.length
  · rw [hall, take_length]
    exact ⟨fun _ => Or.inl rfl, fun _ => rfl⟩
  obtain ⟨rest, hrest⟩ := padTemporal_take indices
  by_cases heven : k % 2 = 0
  · refine ⟨fun _ => Or.inr heven, fun _ => ?_⟩
    have htake : padTemporal indices
        = indices.take k ++ (indices.drop k ++ rest) := by
      rw [hrest, ← append_assoc, take_append_drop]
    have hshown : padTemporal (indices.take k) = indices.take k :=
      padTemporal_even (by rw [hlength]; exact heven)
    have hbehind := temporalPairs_add 0 (indices.drop k ++ rest) ((k + 1) / 2)
      (indices.take k) (by rw [hlength]; omega)
    rw [hshown, htake]
    exact congrArg _ (hbehind.trans (append_nil _))
  · -- the last segment: one frame twice, and the next index
    obtain ⟨m, rfl⟩ : ∃ m, k = 2 * m + 1 := ⟨k / 2, by omega⟩
    refine iff_of_false ?_ (not_or.mpr ⟨hall, heven⟩)
    have hm : (2 * m + 1 + 1) / 2 = m + 1 := by omega
    have hlt : 2 * m + 1 < indices.length := by omega
    obtain ⟨x, y, behind, hdrop⟩ : ∃ x y behind,
        indices.drop (2 * m) = x :: y :: behind :=
      ⟨indices[2 * m], indices[2 * m + 1], indices.drop (2 * m + 1 + 1), by
        rw [drop_eq_getElem_cons (by omega), drop_eq_getElem_cons (by omega)]⟩
    have hfront : (indices.take (2 * m)).length = 2 * m := by
      rw [length_take]
      omega
    have hsplit : indices = indices.take (2 * m) ++ x :: y :: behind := by
      rw [← hdrop, take_append_drop]
    have htake : indices.take (2 * m + 1) = indices.take (2 * m) ++ [x] := by
      have hget : indices[2 * m]? = some x := by
        rw [← List.head?_drop, hdrop]
        rfl
      rw [take_add_one, hget]
      rfl
    have hshown : padTemporal (indices.take (2 * m + 1))
        = indices.take (2 * m) ++ x :: x :: [] := by
      rw [padTemporal_odd (hlength.symm ▸ heven), htake,
        List.getLast?_concat, append_assoc]
      rfl
    have hasked : padTemporal indices
        = indices.take (2 * m) ++ x :: y :: (behind ++ rest) := by
      rw [hrest]
      conv => lhs; rw [hsplit]
      rw [append_assoc]
      rfl
    rw [hm, hshown, hasked, temporalPairs_add 1 _ _ _ hfront,
      temporalPairs_add 1 _ _ _ hfront, map_append, map_append]
    intro heq
    have hlast := append_cancel_left heq
    have htime : timeOf fps (x, y) = timeOf fps (x, x) :=
      head_eq_of_cons_eq hlast
    unfold timeOf at htime
    rw [div_left_inj' (by linarith)] at htime
    have hxy : x < y := by
      have hpair := hsorted
      rw [hsplit] at hpair
      have := (pairwise_append.mp hpair).2.1
      exact (pairwise_cons.mp this).1 y mem_cons_self
    have : x + y = x + x := by exact_mod_cast htime
    omega

-- ============ the videos

/-- The source indices of the frames of the segments: of those that came,
the last one twice where it pads. -/
def placedIndices (stream : Stream β) (indices : List Int) : List (Int × Int) :=
  temporalPairs (((presentIndices stream indices).length + 1) / 2)
    (padTemporal (presentIndices stream indices))

/-- A frame of a segment is the resized one of the stream at an index. -/
def Placed (stream : Stream β) (resize : Int × Int → β → γ)
    (size : Int × Int) (index : Int) (frame : γ) : Prop :=
  ∃ picture, Shows stream index picture ∧ resize size picture = frame

/-- The frames of the segments are those of the indices. -/
def Segmented (stream : Stream β) (resize : Int × Int → β → γ)
    (indices : List Int) (prepared : PreparedVideo γ) : Prop :=
  ∃ size, List.Forall₂ (OnPairs (Placed stream resize size))
    (placedIndices stream indices) prepared.segments

/-- The timestamp of every segment is the mean of the source indices of its
frames, divided by the rate. -/
def Timed (stream : Stream β) (indices : List Int)
    (prepared : PreparedVideo γ) : Prop :=
  prepared.timestamps = (placedIndices stream indices).map (timeOf stream.fps)

variable {stream : Stream β}

/-- A video that is prepared. -/
theorem prepareVideo_ok {rethrow : DecodeError → ε}
    {smartResize : List β → Except ε (Int × Int)}
    {claim : Int × Int × Int → Except ε Unit}
    {resize : Int × Int → β → γ} {scale : Int → Rat → Rat → Int}
    {policy : DecodePolicy} {options : VideoOptions}
    {prepared : PreparedVideo γ}
    (h : prepareVideo rethrow smartResize claim resize scale stream policy
      options = .ok prepared) :
    ∃ video size,
      decodeVideo scale stream policy options.fps options.minFrames
        options.maxFrames = .ok video
        ∧ smartResize video.frames = .ok size
        ∧ prepared.grid.1
          = ((video.frames.length + temporal - 1) / temporal : Nat)
        ∧ prepared.grid.2 = (size.1 / patch, size.2 / patch)
        ∧ prepared.timestamps = (temporalPairs
        ((video.frames.length + 1) / 2) (padTemporal video.indices)).map
          (timeOf video.fps)
        ∧ prepared.segments = temporalPairs ((video.frames.length + 1) / 2)
        (padTemporal (video.frames.map (resize size))) := by
  unfold prepareVideo at h
  obtain ⟨video, hvideo, h⟩ := bind_ok.mp h
  obtain ⟨size, hsize, h⟩ := bind_ok.mp h
  obtain ⟨_, -, h⟩ := bind_ok.mp h
  cases h
  refine ⟨video, size, ?_, hsize, rfl, rfl, rfl, rfl⟩
  cases hdecode : decodeVideo scale stream policy options.fps
      options.minFrames options.maxFrames with
  | error e =>
    rw [hdecode] at hvideo
    cases hvideo
  | ok decoded =>
    rw [hdecode] at hvideo
    exact congrArg _ (Except.ok.inj hvideo)

/-- The listed indices below the frames that come are the first ones. -/
theorem presentIndices_take (hsorted : indices.Pairwise (· < ·)) :
    presentIndices stream indices
      = indices.take (presentIndices stream indices).length := by
  unfold presentIndices
  induction indices with
  | nil => rfl
  | cons first rest ih =>
    have ⟨hfirst, hrest⟩ := pairwise_cons.mp hsorted
    by_cases hlt : first < (stream.frames.length : Int)
    · have hkeep : (first :: rest).filter
          (fun i => decide (i < (stream.frames.length : Int)))
            = first :: rest.filter
              (fun i => decide (i < (stream.frames.length : Int))) :=
        filter_cons_of_pos (decide_eq_true hlt)
      rw [hkeep, length_cons, take_succ_cons, ← ih hrest]
    · have hnone : (first :: rest).filter
          (fun i => decide (i < (stream.frames.length : Int))) = [] := by
        refine filter_eq_nil_iff.mpr fun i hi => ?_
        rw [decide_eq_true_eq]
        rcases mem_cons.mp hi with rfl | hi
        · exact hlt
        · have := hfirst i hi
          omega
      rw [hnone]
      rfl

theorem presentIndices_length :
    (presentIndices stream indices).length = indices.length
      ↔ ∀ i ∈ indices, i < stream.frames.length := by
  unfold presentIndices
  rw [length_filter_eq_length_iff]
  exact forall₂_congr fun i _ => decide_eq_true_iff

/-- The segments of a video show the frames that came. -/
theorem segments_placed
    {resize : Int × Int → β → γ} {frames : List β} (size : Int × Int)
    (hframes : List.Forall₂ (Shows stream) (presentIndices stream indices)
      frames) :
    List.Forall₂ (OnPairs (Placed stream resize size))
      (placedIndices stream indices)
      (temporalPairs ((frames.length + 1) / 2)
        (padTemporal (frames.map (resize size)))) := by
  unfold placedIndices
  rw [hframes.length_eq]
  refine temporalPairs_related _ (padTemporal_related ?_)
  rw [forall₂_map_right_iff]
  exact hframes.imp fun index picture h => ⟨picture, h, rfl⟩

/-- The sampled indices increase from the first frame to the last, the
frames that are listed and come are collected, and none is reported as
skipped. The segments of a prepared video show those frames, and its
timestamps are theirs just when the listed frames all come, or an even
number of them. -/
theorem video_aligned_iff (rethrow : DecodeError → ε)
    (smartResize : List β → Except ε (Int × Int))
    (claim : Int × Int × Int → Except ε Unit)
    (resize : Int × Int → β → γ) (scale : Int → Rat → Rat → Int)
    (stream : Stream β) (policy : DecodePolicy) (options : VideoOptions)
    (total : Int)
    (htotal : reportedTotal stream policy = .ok total) (hone : 1 ≤ total)
    (hsource : 0 < stream.fps) (htarget : 0 < options.fps)
    (hmin : 1 ≤ options.minFrames)
    (hmax : options.minFrames ≤ options.maxFrames) :
    ∃ indices, sampleIndices scale total stream.fps options.fps
        options.minFrames options.maxFrames = .ok indices
      ∧ Sampled total indices
      ∧ decodeVideo scale stream policy options.fps options.minFrames
        options.maxFrames ≠ .error skippedFrame
      ∧ (∀ video, decodeVideo scale stream policy options.fps options.minFrames
          options.maxFrames = .ok video →
            video.indices = indices
              ∧ List.Forall₂ (Shows stream)
                (presentIndices stream indices) video.frames)
      ∧ ∀ prepared, prepareVideo rethrow smartResize claim resize scale
          stream policy options = .ok prepared →
        Segmented stream resize indices prepared
          ∧ (Timed stream indices prepared
            ↔ (∀ i ∈ indices, i < stream.frames.length)
              ∨ (presentIndices stream indices).length % 2 = 0) := by
  obtain ⟨indices, hindices, hsampled⟩ :=
    @sampleIndices_sampled scale _ _ _ _ _ hone hsource htarget hmin hmax
  have hcases := @decodeVideo_cases _ _ _ scale _ _ _ _ htotal fun _ h => by
    obtain rfl := Except.ok.inj (hindices.symm.trans h)
    exact hsampled
  have hvideos : ∀ video, decodeVideo scale stream policy options.fps
      options.minFrames options.maxFrames = .ok video →
        video.fps = stream.fps ∧ video.indices = indices
          ∧ List.Forall₂ (Shows stream) (presentIndices stream indices)
            video.frames := by
    intro video hvideo
    have hdecoded := hcases.1 video hvideo
    have heq := Except.ok.inj (hdecoded.indices.symm.trans hindices)
    exact ⟨hdecoded.fps, heq, heq ▸ hdecoded.frames⟩
  refine ⟨indices, hindices, hsampled, hcases.2,
    fun video hvideo => (hvideos video hvideo).2, fun prepared hok => ?_⟩
  obtain ⟨video, size, hvideo, -, -, -, htimes, hsegments⟩ := prepareVideo_ok hok
  obtain ⟨hfps, hlisted, hframes⟩ := hvideos video hvideo
  refine ⟨⟨size, hsegments ▸ segments_placed size hframes⟩, ?_⟩
  have hsorted := hsampled.increasing
  have hle : (presentIndices stream indices).length ≤ indices.length :=
    List.length_filter_le _ _
  have htimed := times_iff hsource hsorted hle
  rw [← presentIndices_take hsorted, presentIndices_length] at htimed
  unfold Timed placedIndices
  rw [htimes, hfps, hlisted, ← hframes.length_eq]
  exact htimed

/-- A stream that reports six frames, three a second. -/
def reportsSix (frames : List Nat) : Stream Nat where
  nbFrames := 6
  duration := 2
  fps := 3
  codedWidth := 32
  codedHeight := 32
  frames := frames.map fun n => ⟨32, 32, .ok n⟩
  failure := none

/-- A policy within which it stays. -/
def widePolicy : DecodePolicy where
  maxDecodedVideoPixels := 10 ^ 6
  maxVideoSourceFrames := 100
  maxVideoDurationSeconds := 60

/-- The frames at a target rate, exactly. -/
def scaledCount (total : Int) (sourceFps targetFps : Rat) : Int :=
  (total / sourceFps * targetFps).floor

/-- The preparation of such a stream, at its own rate. -/
def prepareSix (frames : List Nat) : Except DecodeError (PreparedVideo Nat) :=
  prepareVideo id (fun _ => .ok (32, 32)) (fun _ => .ok ()) (fun _ n => n)
    scaledCount (reportsSix frames) widePolicy ⟨3, 1, 8⟩

/-- With four of the frames. -/
theorem video_aligned_fourFrames :
    ∃ prepared, prepareSix [10, 11, 12, 13] = .ok prepared
      ∧ Timed (reportsSix [10, 11, 12, 13]) [0, 1, 2, 3, 4, 5] prepared := by
  obtain ⟨indices, hindices, -, -, -, hprepared⟩ :=
    video_aligned_iff id (fun _ => .ok (32, 32)) (fun _ => .ok ())
      (fun _ n => n) scaledCount (reportsSix [10, 11, 12, 13]) widePolicy ⟨3, 1, 8⟩ 6
      rfl (by decide) (by decide) (by decide) (by decide) (by decide)
  have hsix : indices = [0, 1, 2, 3, 4, 5] :=
    Except.ok.inj (hindices.symm.trans (by decide +kernel))
  subst hsix
  have hok : prepareSix [10, 11, 12, 13]
      = .ok ⟨(2, 2, 2), [1 / 6, 5 / 6], [(10, 11), (12, 13)]⟩ := by
    decide +kernel
  exact ⟨_, hok, (hprepared _ hok).2.mpr (Or.inr (by decide +kernel))⟩

/-- With five of them the last segment shows frame 4 twice, and takes its
time between frames 4 and 5. -/
theorem video_aligned_fiveFrames :
    ∃ prepared, prepareSix [10, 11, 12, 13, 14] = .ok prepared
      ∧ prepared.segments = [(10, 11), (12, 13), (14, 14)]
      ∧ prepared.timestamps = [1 / 6, 5 / 6, 9 / 6]
      ∧ ¬ Timed (reportsSix [10, 11, 12, 13, 14]) [0, 1, 2, 3, 4, 5]
        prepared := by
  refine ⟨⟨(3, 2, 2), [1 / 6, 5 / 6, 9 / 6], [(10, 11), (12, 13), (14, 14)]⟩,
    by decide +kernel, rfl, rfl, ?_⟩
  unfold Timed
  decide +kernel

end Ginfer.Frontend
