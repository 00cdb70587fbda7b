/-
The experts of a token are the eight best.

A warp sorts thirty-two lists of eight scores, one a lane, and draws the
best of their heads eight times over. `Before` is the order the selection
is meant to follow: the higher score first, of equal scores the lower
expert. `selectTop8Warp_eightBest` says that the drawn experts come in
that order and ahead of all others, for scores that are all comparable.
-/
import Ginfer.Lib.Drawing
import Ginfer.Ops.SparseMoe

namespace Ginfer.Ops.SparseMoe

open Ginfer.Lib List

variable {α : Type} [Preorder α]

/-- Score descending, expert ascending. -/
def Before (scores : Nat → α) (a b : Nat) : Prop :=
  scores b < scores a ∨ (scores a ≤ scores b ∧ scores b ≤ scores a) ∧ a < b

/-- `ids` are the eight best of the 256 experts, in order. -/
structure EightBest (scores : Nat → α) (ids : List Nat) : Prop where
  length : ids.length = 8
  nodup : ids.Nodup
  experts : ∀ id ∈ ids, id < 256
  inOrder : ids.Pairwise (Before scores)
  best : ∀ id ∈ ids, ∀ other < 256, other ∉ ids → Before scores id other

-- ============ the order

theorem rankedBetter_irrefl (a : RankedValue α) : ¬ rankedBetter a a := by
  rintro (hlt | ⟨-, hid⟩)
  · exact lt_irrefl _ hlt
  · exact lt_irrefl _ hid

theorem rankedBetter_asymm {a b : RankedValue α} (h : rankedBetter a b) :
    ¬ rankedBetter b a := by
  rintro (hlt | ⟨heq, hid⟩)
  · rcases h with hlt' | ⟨heq', -⟩
    · exact lt_asymm hlt hlt'
    · exact not_lt_of_ge heq'.2 hlt
  · rcases h with hlt' | ⟨-, hid'⟩
    · exact not_lt_of_ge heq.2 hlt'
    · exact Nat.lt_asymm hid hid'

theorem rankedBetter_trans {a b c : RankedValue α} (h : rankedBetter a b)
    (h' : rankedBetter b c) : rankedBetter a c := by
  rcases h with hlt | ⟨heq, hid⟩ <;> rcases h' with hlt' | ⟨heq', hid'⟩
  · exact .inl (lt_trans hlt' hlt)
  · exact .inl (lt_of_le_of_lt heq'.2 hlt)
  · exact .inl (lt_of_lt_of_le hlt' heq.2)
  · exact .inr ⟨⟨le_trans heq.1 heq'.1, le_trans heq'.2 heq.2⟩,
      lt_trans hid hid'⟩

section

variable (comparable : ∀ a b : α, a ≤ b ∨ b ≤ a)
include comparable

variable {a b : RankedValue α}

/-- Not better: at most the other's score, and on a tie not a lower
expert. -/
theorem not_rankedBetter :
    ¬ rankedBetter a b ↔
      a.value ≤ b.value ∧ (b.value ≤ a.value → b.id ≤ a.id) := by
  constructor
  · intro h
    have hle : a.value ≤ b.value := by
      by_contra hnot
      have hge := (comparable a.value b.value).resolve_left hnot
      exact h (.inl (lt_of_le_not_ge hge hnot))
    refine ⟨hle, fun hge => ?_⟩
    by_contra hid
    exact h (.inr ⟨⟨hle, hge⟩, by omega⟩)
  · rintro ⟨hle, htie⟩ (hlt | ⟨heq, hid⟩)
    · exact not_lt_of_ge hle hlt
    · have hge := htie heq.2
      omega

theorem not_rankedBetter_trans {c : RankedValue α}
    (h : ¬ rankedBetter a b) (h' : ¬ rankedBetter b c) :
    ¬ rankedBetter a c := by
  rw [not_rankedBetter comparable] at h h' ⊢
  obtain ⟨hle, htie⟩ := h
  obtain ⟨hle', htie'⟩ := h'
  refine ⟨le_trans hle hle', fun hge => ?_⟩
  have hid := htie (le_trans hle' hge)
  have hid' := htie' (le_trans hge hle)
  omega

/-- Two different experts never tie. -/
theorem rankedBetter_total (hne : a.id ≠ b.id) :
    rankedBetter a b ∨ rankedBetter b a := by
  by_contra hnot
  rw [not_or, not_rankedBetter comparable, not_rankedBetter comparable] at hnot
  obtain ⟨⟨hle, htie⟩, hle', htie'⟩ := hnot
  have hid := htie hle'
  have hid' := htie' hle
  omega

-- ============ a lane's sort

variable [DecidableLE α] [DecidableLT α]

omit comparable in
theorem shiftIn_perm (value : RankedValue α) (sorted : List (RankedValue α)) :
    (shiftIn value sorted).Perm (value :: sorted) := by
  induction sorted with
  | nil => exact List.Perm.refl _
  | cons last rest ih =>
    rw [shiftIn]
    by_cases hbetter : rankedBetter value last
    · rw [if_pos hbetter]
      exact (ih.cons last).trans (List.Perm.swap value last rest)
    · rw [if_neg hbetter]

/-- Shifting in keeps the list sorted, the best last. -/
theorem shiftIn_sorted {value : RankedValue α} {sorted : List (RankedValue α)}
    (hsorted : sorted.Pairwise fun a b => rankedBetter b a)
    (hfresh : ∀ x ∈ sorted, x.id ≠ value.id) :
    (shiftIn value sorted).Pairwise fun a b => rankedBetter b a := by
  induction sorted with
  | nil => exact pairwise_singleton _ _
  | cons last rest ih =>
    rw [pairwise_cons] at hsorted
    obtain ⟨hlast, hrest⟩ := hsorted
    rw [shiftIn]
    by_cases hbetter : rankedBetter value last
    · rw [if_pos hbetter, pairwise_cons]
      refine ⟨?_, ih hrest fun x hx =>
        hfresh x (.tail last hx)⟩
      intro y hy
      rw [(shiftIn_perm value rest).mem_iff, mem_cons] at hy
      rcases hy with rfl | hy
      · exact hbetter
      · exact hlast y hy
    · rw [if_neg hbetter, pairwise_cons, pairwise_cons]
      have hwins : rankedBetter last value :=
        (rankedBetter_total comparable
          (hfresh last (.head _))).resolve_right hbetter
      refine ⟨?_, hlast, hrest⟩
      intro y hy
      rw [mem_cons] at hy
      rcases hy with rfl | hy
      · exact hwins
      · exact rankedBetter_trans (hlast y hy) hwins

omit comparable in
theorem shiftIns_perm (values sorted : List (RankedValue α)) :
    (values.foldl (fun sorted value => shiftIn value sorted) sorted).Perm
      (values ++ sorted) := by
  induction values generalizing sorted with
  | nil => exact List.Perm.refl _
  | cons value values ih =>
    rw [foldl_cons, cons_append]
    exact (ih _).trans
      (((shiftIn_perm value sorted).append_left values).trans perm_middle)

theorem shiftIns_sorted {values sorted : List (RankedValue α)}
    (hsorted : sorted.Pairwise fun a b => rankedBetter b a)
    (hids : ((values ++ sorted).map RankedValue.id).Nodup) :
    (values.foldl (fun sorted value => shiftIn value sorted)
      sorted).Pairwise fun a b => rankedBetter b a := by
  induction values generalizing sorted with
  | nil => exact hsorted
  | cons value values ih =>
    rw [cons_append, map_cons, nodup_cons] at hids
    obtain ⟨hfresh, hids⟩ := hids
    have hmove : (values ++ shiftIn value sorted).Perm
        (value :: (values ++ sorted)) :=
      ((shiftIn_perm value sorted).append_left values).trans perm_middle
    apply ih
    · refine shiftIn_sorted comparable hsorted fun x hx hsame => hfresh ?_
      exact mem_map.mpr ⟨x, mem_append_right values hx, hsame⟩
    · rw [(hmove.map RankedValue.id).nodup_iff, map_cons, nodup_cons]
      exact ⟨hfresh, hids⟩

variable {scores : Nat → α} {lane : Nat}

omit comparable in
theorem mem_laneSorted {x : RankedValue α} :
    x ∈ laneSorted scores lane ↔ ∃ item < 8,
      x = ⟨scores (lane + item * 32), lane + item * 32, lane⟩ := by
  have hperm := shiftIns_perm (laneValues scores lane) []
  rw [laneSorted, mem_reverse, hperm.mem_iff, append_nil, laneValues, mem_map]
  constructor
  · rintro ⟨item, hitem, rfl⟩
    exact ⟨item, mem_range.mp hitem, rfl⟩
  · rintro ⟨item, hitem, rfl⟩
    exact ⟨item, mem_range.mpr hitem, rfl⟩

omit comparable in
theorem laneSorted_length (scores : Nat → α) (lane : Nat) :
    (laneSorted scores lane).length = 8 := by
  rw [laneSorted, length_reverse, (shiftIns_perm _ _).length_eq,
    append_nil, laneValues, length_map, length_range]

theorem laneSorted_sorted (scores : Nat → α) (lane : Nat) :
    (laneSorted scores lane).Pairwise rankedBetter := by
  rw [laneSorted, pairwise_reverse]
  refine shiftIns_sorted comparable List.Pairwise.nil ?_
  rw [append_nil, laneValues, map_map]
  refine List.Nodup.map_on ?_ nodup_range
  intro a _ b _ hsame
  change lane + a * 32 = lane + b * 32 at hsame
  omega

-- ============ the shuffle

omit comparable in
/-- A step of the shuffle over the lower lanes is a halving. -/
theorem warpBestStep_low {offset : Nat} (hlane : lane < offset)
    (hwarp : offset + offset ≤ 32) (value : Nat → RankedValue α) :
    warpBestStep value offset lane =
      if rankedBetter (value (lane + offset)) (value lane)
      then value (lane + offset) else value lane := by
  have hinside : lane + offset < 32 := by omega
  rw [warpBestStep, shflDown, if_pos hinside]

theorem isBest_of_warpBestStep {value : Nat → RankedValue α}
    {offset : Nat} (hwarp : offset + offset ≤ 32) {best : RankedValue α}
    (h : IsBest rankedBetter (warpBestStep value offset) offset best) :
    IsBest rankedBetter value (offset + offset) best :=
  h.of_halving rankedBetter_irrefl rankedBetter_asymm
    (not_rankedBetter_trans comparable)
    fun _ hlane => warpBestStep_low hlane hwarp value

/-- The warp's best is the best of its thirty-two lanes. -/
theorem warpBest_isBest (value : Nat → RankedValue α) :
    IsBest rankedBetter value 32 (warpBest value) := by
  have hlast := IsBest.one rankedBetter_irrefl
    ([16, 8, 4, 2, 1].foldl warpBestStep value)
  simp only [foldl_cons, foldl_nil] at hlast
  have h2 := isBest_of_warpBestStep comparable (by decide) hlast
  have h4 := isBest_of_warpBestStep comparable (by decide) h2
  have h8 := isBest_of_warpBestStep comparable (by decide) h4
  have h16 := isBest_of_warpBestStep comparable (by decide) h8
  exact isBest_of_warpBestStep comparable (by decide) h16

-- ============ the loop

/-- What a lane has not drawn yet. -/
def Top8.queue (scores : Nat → α) (top : Top8 α) (lane : Nat) :
    List (RankedValue α) :=
  (laneSorted scores lane).drop (top.cursor lane)

/-- The state after `rank` rounds. -/
structure Selecting (scores : Nat → α) (rank : Nat) (top : Top8 α) :
    Prop where
  drawn : Drawn rankedBetter 32 (top.queue scores) top.winners
  cursor_le : ∀ lane, top.cursor lane ≤ rank
  length : top.winners.length = rank
  held : ∀ x ∈ top.winners, ∃ lane < 32, x ∈ laneSorted scores lane
  complete : ∀ lane < 32, ∀ x ∈ laneSorted scores lane,
    x ∈ top.winners ∨ x ∈ top.queue scores lane

theorem selecting_start (scores : Nat → α) :
    Selecting scores 0 ⟨fun _ => 0, []⟩ where
  drawn := by
    refine Drawn.start (fun lane _ => laneSorted_sorted comparable scores lane) ?_
    intro l hl m hm hne x hx y hy
    obtain ⟨item, -, rfl⟩ := mem_laneSorted.mp hx
    obtain ⟨item', -, rfl⟩ := mem_laneSorted.mp hy
    apply rankedBetter_total comparable
    change l + item * 32 ≠ m + item' * 32
    omega
  cursor_le _ := le_refl 0
  length := rfl
  held := nofun
  complete _ _ _ hx := .inr hx

variable [OrderBot α]

variable {rank : Nat}

omit comparable in
/-- In the first eight rounds every lane still has a value. -/
theorem Selecting.queue_eq {top : Top8 α}
    (h : Selecting scores rank top) (hrank : rank < 8) (lane : Nat) :
    top.queue scores lane = candidate scores (top.cursor lane) lane ::
      (laneSorted scores lane).drop (top.cursor lane + 1) := by
  have hcursor : top.cursor lane < (laneSorted scores lane).length := by
    have hle := h.cursor_le lane
    rw [laneSorted_length]
    omega
  rw [Top8.queue, drop_eq_getElem_cons hcursor, candidate,
    List.getElem?_eq_getElem hcursor, Option.getD_some]

omit comparable in
theorem selectRank_cursor (scores : Nat → α) (top : Top8 α) (lane : Nat) :
    (selectRank scores top).cursor lane =
      if lane = (warpBest fun lane =>
        candidate scores (top.cursor lane) lane).origin
      then top.cursor lane + 1 else top.cursor lane := rfl

omit comparable in
/-- The winner's lane drops its head, the others keep theirs. -/
theorem queue_selectRank (scores : Nat → α) (top : Top8 α)
    (hlane : lane = (warpBest fun lane =>
      candidate scores (top.cursor lane) lane).origin) :
    (selectRank scores top).queue scores =
      Function.update (top.queue scores) lane
        ((laneSorted scores lane).drop (top.cursor lane + 1)) := by
  funext l
  rw [Top8.queue, selectRank_cursor, ← hlane]
  by_cases hl : l = lane
  · rw [hl, Function.update_self, if_pos rfl]
  · rw [Function.update_of_ne hl, if_neg hl, Top8.queue]

/-- One round. -/
theorem Selecting.step {top : Top8 α}
    (h : Selecting scores rank top) (hrank : rank < 8) :
    Selecting scores (rank + 1) (selectRank scores top) := by
  have hbest := warpBest_isBest comparable
    fun lane => candidate scores (top.cursor lane) lane
  obtain ⟨lane, hlane, hwinner⟩ := hbest.lane
  have hqueue := h.queue_eq hrank lane
  have hmem : candidate scores (top.cursor lane) lane ∈
      laneSorted scores lane := by
    refine mem_of_mem_drop (i := top.cursor lane) ?_
    change _ ∈ top.queue scores lane
    rw [hqueue]
    exact .head _
  have horigin : lane = (warpBest fun lane =>
      candidate scores (top.cursor lane) lane).origin := by
    obtain ⟨item, -, hitem⟩ := mem_laneSorted.mp hmem
    rw [← hwinner, hitem]
  have hnext := queue_selectRank scores top horigin
  rw [hwinner] at hqueue hmem
  constructor
  · rw [hnext]
    refine h.drawn.draw rankedBetter_trans hlane hqueue ?_
    intro l hl y hy
    rw [h.queue_eq hrank l, List.head?_cons, Option.mem_some_iff] at hy
    rw [← hy]
    exact hbest.none_better l hl
  · intro l
    have hle := h.cursor_le l
    rw [selectRank_cursor]
    split <;> omega
  · rw [selectRank, length_append, h.length, length_singleton]
  · intro x hx
    rw [selectRank, mem_append, mem_singleton] at hx
    rcases hx with hx | rfl
    · exact h.held x hx
    · exact ⟨lane, hlane, hmem⟩
  · intro l hl x hx
    rw [hnext]
    exact drawn_or_held hqueue (h.complete l hl x hx)

theorem selecting_run (scores : Nat → α) (hrank : rank ≤ 8) :
    Selecting scores rank ((selectRank scores)^[rank] ⟨fun _ => 0, []⟩) := by
  induction rank with
  | zero => exact selecting_start comparable scores
  | succ rank ih =>
    rw [Function.iterate_succ_apply']
    exact (ih (by omega)).step comparable hrank

-- ============ the winners

omit comparable [OrderBot α] in
theorem before_of_rankedBetter {l m : Nat} (ha : a ∈ laneSorted scores l)
    (hb : b ∈ laneSorted scores m) (h : rankedBetter a b) :
    Before scores a.id b.id := by
  obtain ⟨item, -, rfl⟩ := mem_laneSorted.mp ha
  obtain ⟨item', -, rfl⟩ := mem_laneSorted.mp hb
  exact h

/-- The selected experts are the eight best. -/
theorem selectTop8Warp_eightBest (scores : Nat → α) :
    EightBest scores ((selectTop8Warp scores).map RankedValue.id) := by
  have hrun := selecting_run comparable scores (le_refl 8)
  have horder : ((selectTop8Warp scores).map RankedValue.id).Pairwise
      (Before scores) := by
    rw [pairwise_map]
    refine hrun.drawn.inOrder.imp_of_mem ?_
    intro a b ha hb hbetter
    obtain ⟨l, -, hl⟩ := hrun.held a ha
    obtain ⟨m, -, hm⟩ := hrun.held b hb
    exact before_of_rankedBetter hl hm hbetter
  constructor
  · rw [length_map]
    exact hrun.length
  · refine horder.imp ?_
    rintro a b (hlt | ⟨-, hid⟩) rfl
    · exact lt_irrefl _ hlt
    · exact lt_irrefl _ hid
  · intro id hid
    obtain ⟨x, hx, rfl⟩ := mem_map.mp hid
    obtain ⟨lane, hlane, hheld⟩ := hrun.held x hx
    obtain ⟨item, hitem, rfl⟩ := mem_laneSorted.mp hheld
    change lane + item * 32 < 256
    omega
  · exact horder
  · intro id hid other hother hleft
    obtain ⟨x, hx, rfl⟩ := mem_map.mp hid
    obtain ⟨l, -, hl⟩ := hrun.held x hx
    -- The other expert still stands in its lane's queue.
    have hlane : other % 32 < 32 := Nat.mod_lt _ (by decide)
    have hvalue : (⟨scores other, other, other % 32⟩ : RankedValue α) ∈
        laneSorted scores (other % 32) := by
      have hsplit : other % 32 + other / 32 * 32 = other := by omega
      refine mem_laneSorted.mpr ⟨other / 32, by omega, ?_⟩
      rw [hsplit]
    rcases hrun.complete _ hlane _ hvalue with hdrawn | hqueue
    · exact absurd (mem_map.mpr ⟨_, hdrawn, rfl⟩) hleft
    · exact before_of_rankedBetter hl hvalue
        (hrun.drawn.ahead x hx _ hlane _ hqueue)

end

end Ginfer.Ops.SparseMoe
