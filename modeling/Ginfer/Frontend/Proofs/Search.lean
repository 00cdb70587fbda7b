/-
The decoder's searches, against occurrences.

`find` is the first occurrence; `longest_suffix_prefix` is the longest
end that begins the marker; `stop_hold_size` holds back at least every
end that begins a stop string of the channel. With these the searches of
the decoder are instances of Lib/HoldBack.lean.
-/
import Ginfer.Lib.HoldBack
import Ginfer.Frontend.OutputSession

namespace Ginfer.Frontend

open Ginfer.Lib List

-- ============ find

variable {text pattern : Bytes}

theorem find_eq_some {i : Nat} (h : find text pattern = some i) :
    OccursAt pattern text i ∧ ∀ j < i, ¬ OccursAt pattern text j := by
  unfold find at h
  obtain ⟨hi, -, hbefore⟩ := find?_range_eq_some.mp h
  refine ⟨ isPrefixOf_iff_prefix.mp hi, ?_⟩
  intro j hj hocc
  have hnot := hbefore j hj
  rw [ isPrefixOf_iff_prefix.mpr hocc] at hnot
  exact absurd hnot (by decide)

theorem find_eq_none (hne : pattern ≠ []) :
    find text pattern = none ↔ ∀ i, ¬ OccursAt pattern text i := by
  unfold find
  rw [find?_eq_none]
  constructor
  · intro h i hocc
    have hle := hocc.length_le hne
    exact h i (mem_range.mpr (by omega)) ( isPrefixOf_iff_prefix.mpr hocc)
  · intro h i _ hpre
    exact h i ( isPrefixOf_iff_prefix.mp hpre)

/-- The first occurrence is what `find` finds. -/
theorem find_of_occursAt {i : Nat}
    (hne : pattern ≠ []) (hocc : OccursAt pattern text i)
    (hfirst : ∀ j < i, ¬ OccursAt pattern text j) :
    find text pattern = some i := by
  cases hfind : find text pattern with
  | none => exact absurd hocc ((find_eq_none hne).mp hfind i)
  | some j =>
    obtain ⟨hj, hbefore⟩ := find_eq_some hfind
    have hij : ¬ j < i := fun hlt => hfirst j hlt hj
    have hji : ¬ i < j := fun hlt => hbefore i hlt hocc
    rw [show j = i by omega]

variable {published pending : Bytes}

/-- `find` of the whole text is `find` of the held part and the piece,
shifted. -/
theorem find_heldBack {P : Bytes → Prop}
    (h : HeldBack P published pending) (hp : P pattern) (piece : Bytes) :
    find (published ++ (pending ++ piece)) pattern
      = (find (pending ++ piece) pattern).map (published.length + ·) := by
  have hne := h.ne_nil hp
  cases hfind : find (pending ++ piece) pattern with
  | none =>
    rw [Option.map_none, find_eq_none hne]
    intro i hocc
    exact (find_eq_none hne).mp hfind _ ((h.occursAt_iff hp piece i).mp hocc).2
  | some j =>
    obtain ⟨hj, hbefore⟩ := find_eq_some hfind
    rw [Option.map_some]
    refine find_of_occursAt hne ?_ ?_
    · rw [h.occursAt_iff hp]
      refine ⟨Nat.le_add_right _ _, ?_⟩
      rw [Nat.add_sub_cancel_left]
      exact hj
    · intro i hi hocc
      obtain ⟨hle, hocc'⟩ := (h.occursAt_iff hp piece i).mp hocc
      exact hbefore _ (by omega) hocc'

-- ============ the longest beginning

theorem suffixPrefixFrom_le (text marker : Bytes) (allowComplete : Bool)
    (n : Nat) : suffixPrefixFrom text marker allowComplete n ≤ n := by
  induction n with
  | zero => exact le_refl 0
  | succ n ih =>
    unfold suffixPrefixFrom
    split
    · omega
    split
    · exact le_refl _
    · omega

theorem longestSuffixPrefix_le (text marker : Bytes) (allowComplete : Bool) :
    longestSuffixPrefix text marker allowComplete ≤ text.length :=
  (suffixPrefixFrom_le _ _ _ _).trans (min_le_left _ _)

/-- The whole marker is excepted. -/
theorem longestSuffixPrefix_lt {marker : Bytes} (hne : marker ≠ []) :
    longestSuffixPrefix text marker false < marker.length := by
  have hpos := length_pos_iff.mpr hne
  have hloop : ∀ n, n ≤ marker.length →
      suffixPrefixFrom text marker false n < marker.length := by
    intro n hn
    induction n with
    | zero => exact hpos
    | succ n ih =>
      unfold suffixPrefixFrom
      split
      · exact ih (by omega)
      · next hproper =>
        split
        · simp at hproper
          omega
        · exact ih (by omega)
  exact hloop _ (min_le_right _ _)

/-- What it returns is the length of an end that begins the marker. -/
theorem longestSuffixPrefix_suffix (text marker : Bytes) (allowComplete : Bool) :
    marker.take (longestSuffixPrefix text marker allowComplete) <:+ text := by
  have hloop : ∀ n, marker.take
      (suffixPrefixFrom text marker allowComplete n) <:+ text := by
    intro n
    induction n with
    | zero => exact nil_suffix
    | succ n ih =>
      unfold suffixPrefixFrom
      split
      · exact ih
      split
      · next hmatch =>
        rw [← hmatch]
        exact drop_suffix _ _
      · exact ih
  exact hloop _

/-- No end that begins the marker is longer, the whole marker excepted
unless it is allowed. -/
theorem le_longestSuffixPrefix {marker : Bytes}
    {allowComplete : Bool} {n : Nat} (hle : n ≤ marker.length)
    (hproper : allowComplete = false → n ≠ marker.length)
    (hsuffix : marker.take n <:+ text) :
    n ≤ longestSuffixPrefix text marker allowComplete := by
  have hlength : (marker.take n).length = n := by
    rw [length_take]
    omega
  have hend : text.drop (text.length - n) = marker.take n := by
    have hdrop := suffix_iff_eq_drop.mp hsuffix
    rw [hlength] at hdrop
    exact hdrop.symm
  have hloop : ∀ m, n ≤ m →
      n ≤ suffixPrefixFrom text marker allowComplete m := by
    intro m
    induction m with
    | zero => intro h; exact h
    | succ m ih =>
      intro h
      unfold suffixPrefixFrom
      by_cases hlast : n = m + 1
      · subst hlast
        have hskip : (!allowComplete && m + 1 == marker.length) = false := by
          cases allowComplete with
          | true => rfl
          | false =>
            have hne := hproper rfl
            simpa using hne
        rw [hskip, if_neg (by decide), if_pos hend]
      · split
        · exact ih (by omega)
        split
        · exact h
        · exact ih (by omega)
  have htext := hsuffix.length_le
  rw [hlength] at htext
  exact hloop _ (by omega)

-- ============ the holds

/-- `p` is a stop string of the channel. -/
def StopOn (policy : StopPolicy) (channel : OutputChannel) (p : Bytes) :
    Prop :=
  ∃ stop ∈ policy.strings, stop.channel = channel ∧ stop.text = p

theorem stopHoldSize_le (text : Bytes) (channel : OutputChannel)
    (policy : StopPolicy) :
    stopHoldSize text channel policy ≤ text.length := by
  unfold stopHoldSize
  have hloop : ∀ (stops : List StopString) (hold : Nat), hold ≤ text.length →
      stops.foldl (fun hold stop =>
        if stop.channel ≠ channel then hold
        else max hold (longestSuffixPrefix text stop.text false)) hold
        ≤ text.length := by
    intro stops
    induction stops with
    | nil => intro hold h; exact h
    | cons stop rest ih =>
      intro hold h
      refine ih _ ?_
      dsimp only
      split
      · exact h
      · exact Nat.max_le.mpr ⟨h, longestSuffixPrefix_le _ _ _⟩
  exact hloop _ 0 (Nat.zero_le _)

variable {channel : OutputChannel} {policy : StopPolicy}

/-- Every end that begins a stop string of the channel is held back. -/
theorem le_stopHoldSize {p : Bytes} {n : Nat} (hp : StopOn policy channel p)
    (hn : n < p.length) (hsuffix : p.take n <:+ text) :
    n ≤ stopHoldSize text channel policy := by
  obtain ⟨stop, hmem, hchannel, rfl⟩ := hp
  have hlong : n ≤ longestSuffixPrefix text stop.text false :=
    le_longestSuffixPrefix (by omega) (fun _ => by omega) hsuffix
  unfold stopHoldSize
  -- The accumulator only grows, and passes this stop on the way.
  have hgrows : ∀ (stops : List StopString) (hold : Nat),
      hold ≤ stops.foldl (fun hold stop =>
        if stop.channel ≠ channel then hold
        else max hold (longestSuffixPrefix text stop.text false)) hold := by
    intro stops
    induction stops with
    | nil => intro hold; exact le_refl _
    | cons other rest ih =>
      intro hold
      refine le_trans ?_ (ih _)
      dsimp only
      split
      · exact le_refl _
      · exact le_max_left _ _
  have hloop : ∀ (stops : List StopString) (hold : Nat), stop ∈ stops →
      n ≤ stops.foldl (fun hold stop =>
        if stop.channel ≠ channel then hold
        else max hold (longestSuffixPrefix text stop.text false)) hold := by
    intro stops
    induction stops with
    | nil => intro hold h; cases h
    | cons other rest ih =>
      intro hold h
      rcases mem_cons.mp h with heq | h
      · subst heq
        refine le_trans ?_ (hgrows rest _)
        dsimp only
        rw [if_neg (not_not.mpr hchannel)]
        exact hlong.trans (le_max_right _ _)
      · exact ih _ h
  exact hloop _ 0 hmem

/-- What is held back begins a stop string of the channel. -/
theorem stopHoldSize_begins (hne : ∀ p, StopOn policy channel p → p ≠ [])
    (hpos : 0 < stopHoldSize text channel policy) :
    ∃ p, StopOn policy channel p ∧ stopHoldSize text channel policy < p.length
      ∧ p.take (stopHoldSize text channel policy) <:+ text := by
  -- The accumulator is the hold of one of the stops passed.
  have hloop : ∀ (stops : List StopString) (hold : Nat),
      (∀ stop ∈ stops, stop ∈ policy.strings) →
      (0 < hold → ∃ p, StopOn policy channel p ∧ hold < p.length
        ∧ p.take hold <:+ text) →
      let last := stops.foldl (fun hold stop =>
        if stop.channel ≠ channel then hold
        else max hold (longestSuffixPrefix text stop.text false)) hold
      0 < last → ∃ p, StopOn policy channel p ∧ last < p.length
        ∧ p.take last <:+ text := by
    intro stops
    induction stops with
    | nil => intro hold _ h; exact h
    | cons stop rest ih =>
      intro hold hmem h
      refine ih _ (fun s hs => hmem s (.tail _ hs)) ?_
      dsimp only
      split
      · exact h
      · next hon =>
        rw [not_not] at hon
        have hstop : StopOn policy channel stop.text :=
          ⟨stop, hmem stop (.head _), hon, rfl⟩
        intro hmax
        rcases le_total hold
          (longestSuffixPrefix text stop.text false) with hle | hle
        · rw [Nat.max_eq_right hle] at hmax ⊢
          exact ⟨stop.text, hstop, longestSuffixPrefix_lt (hne _ hstop),
            longestSuffixPrefix_suffix _ _ _⟩
        · rw [Nat.max_eq_left hle] at hmax ⊢
          exact h hmax
  exact hloop policy.strings 0 (fun _ h => h) (fun h => absurd h (by omega)) hpos

/-- The part held back is as long as a search of the whole text holds. -/
theorem heldBack_length (h : HeldBack (StopOn policy channel) published pending) :
    pending.length = stopHoldSize (published ++ pending) channel policy := by
  refine le_antisymm ?_ ?_
  · by_cases hempty : pending = []
    · rw [hempty]
      exact Nat.zero_le _
    · obtain ⟨p, hp, hlt, hfront⟩ := h.begins hempty
      refine le_stopHoldSize hp hlt ?_
      rw [← prefix_iff_eq_take.mp hfront]
      exact suffix_append _ _
  · by_cases hpos : 0 < stopHoldSize (published ++ pending) channel policy
    · obtain ⟨p, hp, hlt, hsuffix⟩ :=
        stopHoldSize_begins (fun _ => h.ne_nil) hpos
      exact h.held p hp _ hlt hsuffix
    · omega

/-- A piece on a channel that completes no stop string of it. -/
theorem heldBack_feed {piece : Bytes}
    (h : HeldBack (StopOn policy channel) published pending)
    (hclear : ∀ p, StopOn policy channel p →
      ∀ i, ¬ OccursAt p (pending ++ piece) i) :
    HeldBack (StopOn policy channel)
      (published ++ (pending ++ piece).take ((pending ++ piece).length
        - stopHoldSize (pending ++ piece) channel policy))
      ((pending ++ piece).drop ((pending ++ piece).length
        - stopHoldSize (pending ++ piece) channel policy)) :=
  h.next piece _ hclear (fun _ hp _ hn hsuffix => le_stopHoldSize hp hn hsuffix)
    (stopHoldSize_le _ _ _)
    (stopHoldSize_begins fun _ => h.ne_nil)

end Ginfer.Frontend
