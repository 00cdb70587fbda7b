/-
The donors are the shortest releasing prefix.

The donor loop subtracts one incumbent after another, in the order of
projected completion, until the head fits in every component. Read as a
search over prefixes: it stops at the first prefix whose release is
enough, the credit is the work of the prefix's last request, and since
the order is by remaining work, that is the greatest of the donors'. A
head that fits alone always has such a prefix: the whole order is one.
-/
import Mathlib.Order.Bounds.Basic
import Ginfer.Executor.Proofs.AdmissionPolicy

namespace Ginfer.Admission

open Ginfer.Lib

/-- The head fits beside `others`, in every component. -/
def FitsBeside (head capacity : AdmissionResources)
    (others : List ActiveAdmissionSnapshot) : Prop :=
  ∀ k, head.get k + used k others ≤ capacity.get k

/-- The order of projected completion: remaining work, then id. -/
def CompletesBefore (lhs rhs : ActiveAdmissionSnapshot) : Prop :=
  lhs.remainingWorkQuanta < rhs.remainingWorkQuanta
    ∨ (lhs.remainingWorkQuanta = rhs.remainingWorkQuanta
      ∧ lhs.requestId ≤ rhs.requestId)

theorem donorOrder_iff (lhs rhs : ActiveAdmissionSnapshot) :
    donorOrder lhs rhs = true ↔ CompletesBefore lhs rhs := by
  unfold donorOrder CompletesBefore
  split
  · next hne =>
    rw [decide_eq_true_eq]
    omega
  · next heq =>
    rw [decide_eq_true_eq]
    omega

/-- The incumbents, sorted as the donor loop takes them. -/
theorem insertionSort_completesBefore (active : List ActiveAdmissionSnapshot) :
    (active.insertionSort fun lhs rhs =>
      donorOrder lhs rhs = true).Pairwise CompletesBefore := by
  have htotal : Std.Total fun lhs rhs => donorOrder lhs rhs = true := by
    constructor
    intro lhs rhs
    rw [donorOrder_iff, donorOrder_iff]
    unfold CompletesBefore
    omega
  have htrans : IsTrans ActiveAdmissionSnapshot
      fun lhs rhs => donorOrder lhs rhs = true := by
    constructor
    intro a b c hab hbc
    rw [donorOrder_iff] at *
    unfold CompletesBefore at *
    omega
  refine (List.pairwise_insertionSort _ active).imp ?_
  intro lhs rhs h
  exact (donorOrder_iff lhs rhs).mp h

theorem used_cons (k : ResourceKind) (r : ActiveAdmissionSnapshot)
    (rest : List ActiveAdmissionSnapshot) :
    used k (r :: rest) = r.resources.get k + used k rest := rfl

/-- The donor loop stops at the first prefix of the order whose release
lets the head fit, with the work of the prefix's last request. -/
theorem selectDonors_shortest {capacity head : AdmissionResources}
    (hfit : FitsBeside head capacity []) :
    ∀ (order : List ActiveAdmissionSnapshot) (survivors : ResourceTotals)
      (sofar : List Nat),
      ¬ FitsBeside head capacity order →
      (∀ k, survivors.get k = head.get k + used k order) →
      ∃ pre donor rest, order = pre ++ donor :: rest
        ∧ selectDonors capacity order survivors sofar
        = .ok (sofar ++ (pre ++ [donor]).map (·.requestId),
            donor.remainingWorkQuanta)
        ∧ FitsBeside head capacity rest
        ∧ ∀ m ≤ pre.length, ¬ FitsBeside head capacity (order.drop m) := by
  intro order
  induction order with
  | nil =>
    intro survivors sofar hblocked _
    exact absurd hfit hblocked
  | cons donor order ih =>
    intro survivors sofar hblocked hget
    have hle : ∀ k, donor.resources.get k ≤ survivors.get k := by
      intro k
      rw [hget k, used_cons]
      omega
    obtain ⟨survivors', hsub, hget'⟩ := ResourceTotals.subtract_ok hle
    have hrest : ∀ k, survivors'.get k = head.get k + used k order := by
      intro k
      have hk := hget k
      have hk' := hget' k
      rw [used_cons] at hk
      omega
    have hfits_iff : survivors'.fits capacity = true
        ↔ FitsBeside head capacity order := by
      rw [ResourceTotals.fits_iff]
      unfold FitsBeside
      simp only [hrest]
    unfold selectDonors
    rw [hsub]
    by_cases hfits : FitsBeside head capacity order
    · refine ⟨[], donor, order, rfl, if_pos (hfits_iff.mpr hfits), hfits, ?_⟩
      intro m hm
      obtain rfl : m = 0 := Nat.le_zero.mp hm
      exact hblocked
    · obtain ⟨pre, last, rest, horder, hselect, hlast, hshort⟩ :=
        ih survivors' (sofar ++ [donor.requestId]) hfits hrest
      refine ⟨donor :: pre, last, rest, by simp [horder], ?_, hlast, ?_⟩
      · have hnot : ¬ survivors'.fits capacity = true :=
          fun h => hfits (hfits_iff.mp h)
        simp only [hnot]
        rw [if_neg (by simp), hselect]
        simp
      · intro m hm
        cases m with
        | zero => exact hblocked
        | succ m => exact hshort m (by simpa using hm)

/-- `make_admission_protection` is minimal and complete: for a head that
fits alone but not beside the active set, it returns; its donors are the
shortest prefix, in the order of projected completion, whose release lets
the head fit in every component; and its credit is the greatest remaining
work among them. -/
theorem make_admission_protection_shortest (epochId headId : Nat)
    (head capacity : AdmissionResources)
    (active : List ActiveAdmissionSnapshot)
    (hepoch : epochId ≠ 0) (hhead : headId ≠ 0)
    (hlanes : head.activeLanes ≠ 0)
    (hcount : active.length ≤ maximumConcurrency)
    (hprogress : ∀ r ∈ active, r.requestId ≠ 0 ∧ r.remainingWorkQuanta ≠ 0)
    (hfit : FitsBeside head capacity [])
    (hblocked : ¬ FitsBeside head capacity active) :
    ∃ (p : AdmissionProtection) (order : List ActiveAdmissionSnapshot) (n : Nat),
      makeAdmissionProtection epochId headId head active capacity = .ok p
        ∧ order.Perm active ∧ order.Pairwise CompletesBefore
        ∧ n ≤ order.length
        ∧ p.donorIds = (order.take n).map (·.requestId)
        ∧ FitsBeside head capacity (order.drop n)
        ∧ (∀ m < n, ¬ FitsBeside head capacity (order.drop m))
        ∧ IsGreatest { work | ∃ donor ∈ order.take n,
            donor.remainingWorkQuanta = work } p.temporalCredit := by
  have hperm : (active.insertionSort fun lhs rhs =>
      donorOrder lhs rhs = true).Perm active :=
    List.perm_insertionSort _ active
  have hsorted := insertionSort_completesBefore active
  generalize horder : (active.insertionSort fun lhs rhs =>
    donorOrder lhs rhs = true) = order at hperm hsorted
  have hused : ∀ k, used k order = used k active :=
    fun k => used_perm k hperm
  have hblocked' : ¬ FitsBeside head capacity order := by
    unfold FitsBeside
    simp only [hused]
    exact hblocked
  have hsurvivors : ∀ k, ((addWhere (fun _ => true) .zero active).add
      head).get k = head.get k + used k order := by
    intro k
    rw [ResourceTotals.get_add, get_addWhere, hused]
    simp [Nat.add_comm]
  obtain ⟨pre, donor, rest, hsplit, hselect, hrest, hshort⟩ :=
    selectDonors_shortest hfit order _ [] hblocked' hsurvivors
  have htake : order.take (pre.length + 1) = pre ++ [donor] := by
    rw [hsplit]
    simp [List.take_append]
  refine ⟨⟨epochId, headId, head, active.map (·.requestId),
    (pre ++ [donor]).map (·.requestId), donor.remainingWorkQuanta,
    .opened⟩, order, pre.length + 1, ?_, hperm, hsorted, ?_, ?_, ?_, ?_, ?_⟩
  · have hactive : active ≠ [] := by
      rintro rfl
      exact hblocked hfit
    have hfits : admissionResourcesFit head capacity = true := by
      rw [admissionResourcesFit_iff]
      intro k
      exact hfit k
    have hvalid : ¬ (active.any fun request =>
        request.requestId == 0 || request.remainingWorkQuanta == 0)
          = true := by
      simp only [List.any_eq_true, Bool.or_eq_true, beq_iff_eq, not_exists,
        not_and, not_or]
      exact hprogress
    have hnotfits : ¬ ((addWhere (fun _ => true) .zero active).add
        head).fits capacity = true := by
      rw [ResourceTotals.fits_iff]
      simp only [hsurvivors]
      exact hblocked'
    unfold makeAdmissionProtection
    rw [if_neg (by
      simp only [not_or, Bool.not_eq_false, not_lt]
      exact ⟨hepoch, hhead, hactive, hcount, hlanes, hfits⟩)]
    rw [if_neg hvalid]
    dsimp only
    rw [if_neg hnotfits, horder, hselect]
    rfl
  · rw [hsplit]
    simp
  · rw [htake]
  · have hdrop : order.drop (pre.length + 1) = rest := by
      rw [hsplit, List.append_cons]
      exact List.drop_left' (by simp)
    rw [hdrop]
    exact hrest
  · intro m hm
    exact hshort m (by omega)
  · rw [htake]
    refine ⟨⟨donor, by simp, rfl⟩, ?_⟩
    rintro work ⟨d, hd, rfl⟩
    -- Every donor before the last one completes before it.
    rw [hsplit] at hsorted
    rcases List.mem_append.mp hd with hpre | hlast
    · have hbefore := (List.pairwise_append.mp hsorted).2.2 d hpre donor
        List.mem_cons_self
      unfold CompletesBefore at hbefore
      show d.remainingWorkQuanta ≤ donor.remainingWorkQuanta
      omega
    · rw [List.mem_singleton.mp hlast]

/-- A three-page head over two incumbents, of two pages and of one, in a
pool of four: the two-page one is further from its end, so both release. -/
theorem make_admission_protection_shortest_two :
    ∃ (p : AdmissionProtection) (order : List ActiveAdmissionSnapshot) (n : Nat),
      makeAdmissionProtection 1 3 ⟨1, 3, 0⟩
          [⟨1, ⟨1, 2, 0⟩, 9, 0, .none⟩, ⟨2, ⟨1, 1, 0⟩, 4, 0, .none⟩]
          ⟨2, 4, 0⟩ = .ok p
        ∧ p.donorIds = [2, 1]
        ∧ order.map (·.requestId) = [2, 1] ∧ n = 2
        ∧ FitsBeside ⟨1, 3, 0⟩ ⟨2, 4, 0⟩ (order.drop n) := by
  have hblocked : ¬ FitsBeside ⟨1, 3, 0⟩ ⟨2, 4, 0⟩
      [⟨1, ⟨1, 2, 0⟩, 9, 0, .none⟩, ⟨2, ⟨1, 1, 0⟩, 4, 0, .none⟩] := by
    intro h
    exact absurd (h .lanes) (by decide)
  obtain ⟨p, order, n, hmade, hperm, hsorted, hn, hdonors, hfits, -, -⟩ :=
    make_admission_protection_shortest 1 3 ⟨1, 3, 0⟩ ⟨2, 4, 0⟩
      [⟨1, ⟨1, 2, 0⟩, 9, 0, .none⟩, ⟨2, ⟨1, 1, 0⟩, 4, 0, .none⟩]
      (by decide) (by decide) (by decide) (by decide) (by decide)
      (by intro k; cases k <;> decide) hblocked
  have hvalue : makeAdmissionProtection 1 3 ⟨1, 3, 0⟩
      [⟨1, ⟨1, 2, 0⟩, 9, 0, .none⟩, ⟨2, ⟨1, 1, 0⟩, 4, 0, .none⟩]
      ⟨2, 4, 0⟩
      = .ok ⟨1, 3, ⟨1, 3, 0⟩, [1, 2], [2, 1], 9, .opened⟩ := by
    decide
  have hp : p.donorIds = [2, 1] := by
    rw [hvalue] at hmade
    rw [← Except.ok.inj hmade]
  have hlength : order.length = 2 := hperm.length_eq
  have htaken : n = 2 := by
    have := congrArg List.length (hdonors.symm.trans hp)
    simp at this
    omega
  subst htaken
  refine ⟨p, order, 2, hmade, hp, ?_, rfl, hfits⟩
  have hall : order.take 2 = order := List.take_of_length_le (by omega)
  rw [hall, hp] at hdonors
  exact hdonors.symm

end Ginfer.Admission
