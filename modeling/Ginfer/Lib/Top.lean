/-
The largest elements of a list.

`top cap l` are the first `cap` of the sorted list. An element is among
them when fewer than `cap` are larger (`mem_top`). A list that holds
these, and beside zeros nothing that the first list does not hold, has
the same largest elements (`top_eq`): a selection may drop and pad, as
long as it keeps what counts.
-/
import Mathlib.Data.UInt

namespace Ginfer.Lib

open List

/-- Descending. -/
def sortDesc (l : List Nat) : List Nat := l.mergeSort fun a b => decide (b ≤ a)

def top (cap : Nat) (l : List Nat) : List Nat := (sortDesc l).take cap

theorem sortDesc_perm (l : List Nat) : (sortDesc l).Perm l := mergeSort_perm ..

theorem sortDesc_pairwise (l : List Nat) : (sortDesc l).Pairwise (· ≥ ·) := by
  have h := @pairwise_mergeSort Nat (fun a b => decide (b ≤ a))
    (fun a b c hab hbc => decide_eq_true
      ((of_decide_eq_true hbc).trans (of_decide_eq_true hab)))
    (fun a b => by simpa using Nat.le_total b a) l
  exact h.imp fun hab => of_decide_eq_true hab

theorem top_subperm (cap : Nat) (l : List Nat) : (top cap l).Subperm l :=
  (take_sublist ..).subperm.trans (sortDesc_perm l).subperm

/-- In a sorted list, an element is early when few are larger. -/
theorem mem_take_sorted {l : List Nat} (hl : l.Pairwise (· ≥ ·)) {x : Nat} (hx : x ∈ l) :
    ∀ {cap}, x ∈ l.take cap ↔ l.countP (x < ·) < cap := by
  induction l with
  | nil => cases hx
  | cons a l ih =>
    intro cap
    obtain ⟨ha, hl⟩ := pairwise_cons.1 hl
    cases cap with
    | zero => simp
    | succ cap =>
      rw [take_succ_cons, mem_cons]
      by_cases hlt : x < a
      · have hin := (mem_cons.1 hx).resolve_left (Nat.ne_of_lt hlt)
        rw [ih hl hin, countP_cons_of_pos (by simpa using hlt)]
        omega
      · -- Nothing in a sorted list is larger than its head.
        have hle : a ≥ x := by
          obtain rfl | hin := mem_cons.1 hx
          · exact Nat.le_refl _
          · exact ha x hin
        obtain rfl : x = a := by omega
        have hzero : (x :: l).countP (x < ·) = 0 := by
          rw [countP_eq_zero]
          intro y hy
          obtain rfl | hin := mem_cons.1 hy
          · simp
          · simpa using ha y hin
        rw [hzero]
        simp

theorem mem_top {l : List Nat} {x cap : Nat} (hx : x ∈ l) :
    x ∈ top cap l ↔ l.countP (x < ·) < cap := by
  rw [top, mem_take_sorted (sortDesc_pairwise l) ((sortDesc_perm l).mem_iff.2 hx),
    (sortDesc_perm l).countP_eq]

/-- A sorted part that nothing of the rest exceeds. -/
theorem top_of_perm {l part rest : List Nat} (hpart : part.Pairwise (· ≥ ·))
    (h : l.Perm (part ++ rest)) (hrest : ∀ r ∈ rest, ∀ x ∈ part, r ≤ x) :
    top part.length l = part := by
  have hsorted : (part ++ sortDesc rest).Pairwise (· ≥ ·) :=
    pairwise_append.2 ⟨hpart, sortDesc_pairwise rest, fun x hx r hr =>
      hrest r ((sortDesc_perm rest).mem_iff.1 hr) x hx⟩
  have hsame : sortDesc l = part ++ sortDesc rest :=
    List.Perm.eq_of_pairwise' (sortDesc_pairwise l) hsorted
      ((sortDesc_perm l).trans (h.trans ((sortDesc_perm rest).symm.append_left _)))
  rw [top, hsame, take_left]

theorem nodup_of_subperm {part l : List Nat} (h : part.Subperm l) (hl : l.Nodup) :
    part.Nodup := by
  obtain ⟨_, hperm, hsub⟩ := h
  exact hperm.nodup_iff.1 (hl.sublist hsub)

/-- What a list holds beside zeros is in another, no more often. -/
def Live (l whole : List Nat) : Prop := (l.filter (· ≠ 0)).Subperm whole

variable {l whole : List Nat}

theorem live_of_subperm (h : l.Subperm whole) : Live l whole :=
  filter_sublist.subperm.trans h

theorem Live.trans {all : List Nat} (h : Live l whole) (hwhole : Live whole all) :
    Live l all := by
  have hfilter := (List.Subperm.filter (fun x => decide (x ≠ 0)) h).trans hwhole
  rwa [filter_filter, funext fun x => Bool.and_self (decide (x ≠ 0))] at hfilter

theorem Live.count_le (h : Live l whole) (x : Nat) :
    l.countP (x < ·) ≤ whole.countP (x < ·) := by
  have hfilter : l.countP (x < ·) = (l.filter (· ≠ 0)).countP (x < ·) := by
    rw [countP_filter]
    refine countP_congr fun y _ => ?_
    simp only [ne_eq, decide_not, Bool.and_eq_true, Bool.not_eq_true', decide_eq_true_eq,
      decide_eq_false_iff_not]
    omega
  rw [hfilter]
  exact h.countP_le _

theorem Live.mem (h : Live l whole) {x : Nat} (hx : x ∈ l) (hne : x ≠ 0) : x ∈ whole :=
  h.subset (mem_filter.2 ⟨hx, decide_eq_true hne⟩)

theorem Live.append_zeros (h : Live l whole) (n : Nat) :
    Live (l ++ List.replicate n 0) whole := by
  have hzeros : (List.replicate n 0).filter (fun x => decide (x ≠ 0)) = [] := by
    rw [filter_eq_nil_iff]
    intro x hx
    simp [eq_of_mem_replicate hx]
  rw [Live, filter_append, hzeros, append_nil]
  exact h

theorem Live.flatMap {ι : Type} {f g : ι → List Nat} (h : ∀ i, Live (f i) (g i)) :
    ∀ is : List ι, Live (is.flatMap f) (is.flatMap g)
  | [] => List.Subperm.refl _
  | i :: is => by
    rw [Live, flatMap_cons, flatMap_cons, filter_append]
    exact ((subperm_append_right _).2 (h i)).trans
      ((subperm_append_left _).2 (Live.flatMap h is))

/-- A list that keeps the largest elements of another. -/
theorem top_eq {cap : Nat} (hlive : Live l whole) (hnodup : whole.Nodup)
    (hcap : cap ≤ whole.length)
    (hkeeps : ∀ x ∈ whole, whole.countP (x < ·) < cap → x ∈ l) :
    top cap l = top cap whole := by
  have hsub := top_subperm cap whole
  have hmem {x : Nat} (hx : x ∈ top cap whole) : x ∈ whole := hsub.subset hx
  have htop : (top cap whole).Nodup := nodup_of_subperm hsub hnodup
  have hperm : (top cap whole ++ l.diff (top cap whole)).Perm l :=
    subperm_append_diff_self_of_count_le fun x hx => by
      rw [count_eq_one_of_mem htop hx, Nat.succ_le_iff, count_pos_iff]
      exact hkeeps x (hmem hx) ((mem_top (hmem hx)).1 hx)
  have hlength : (top cap whole).length = cap := by
    rw [top, length_take, (sortDesc_perm whole).length_eq]
    omega
  have hpart : (top cap whole).Pairwise (· ≥ ·) :=
    (sortDesc_pairwise whole).sublist (take_sublist ..)
  refine (hlength ▸ top_of_perm hpart hperm.symm fun r hr x hx => ?_ :)
  by_contra hlt
  have hne : r ≠ 0 := by omega
  -- What the list holds beside the largest elements is not one of them.
  have hout : r ∉ top cap whole := by
    intro hin
    have hboth : 2 ≤ (top cap whole ++ l.diff (top cap whole)).count r := by
      have := count_pos_iff.2 hin
      have := count_pos_iff.2 hr
      rw [count_append]
      omega
    have hone : (l.filter (· ≠ 0)).count r ≤ 1 := nodup_iff_count_le_one.1
      (nodup_of_subperm hlive hnodup) r
    rw [count_filter (by simpa using hne), ← hperm.count_eq] at hone
    omega
  have hwhole : r ∈ whole :=
    hlive.mem (hperm.mem_iff.1 (mem_append_right _ hr)) hne
  have hfew := (mem_top (hmem hx)).1 hx
  have hmono : whole.countP (r < ·) ≤ whole.countP (x < ·) :=
    countP_mono_left fun y _ hy => by
      simp only [decide_eq_true_eq] at hy ⊢
      omega
  exact hout ((mem_top hwhole).2 (by omega))

end Ginfer.Lib
