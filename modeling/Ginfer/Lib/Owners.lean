/-
Totals over a family of owners.

A resource handed out to a family `g : ι → A` of owners is accounted for
by a total `∑ i, m (g i)` in some commutative monoid — page counts in
`Nat`, page contents in `Multiset`. Every operation touches one owner, so
the one fact needed is how a total moves when one entry is replaced. It
is stated additively, without subtraction, so that it serves `Nat` and
`Multiset` alike.
-/
import Mathlib.Data.UInt
import Mathlib.Algebra.Order.BigOperators.Group.Finset
import Mathlib.Algebra.BigOperators.Ring.Finset

namespace Ginfer.Lib

open Function Finset

variable {ι A M : Type}

/-- Replacing owner `i`'s entry moves a total over owners that include
`i` by exactly the difference of the two entries. -/
theorem total_update_on [DecidableEq ι] [AddCommMonoid M] (owners : Finset ι)
    (g : ι → A) (m : A → M) (i : ι) (hi : i ∈ owners) (a : A) :
    (∑ j ∈ owners, m (update g i a j)) + m (g i)
      = (∑ j ∈ owners, m (g j)) + m a := by
  have hnew : (∑ j ∈ owners, m (update g i a j))
      = m a + ∑ j ∈ owners.erase i, m (g j) := by
    rw [← add_sum_erase owners _ hi]
    congr 1
    · rw [update_self]
    · refine sum_congr rfl ?_
      intro j hj
      rw [update_of_ne (ne_of_mem_erase hj)]
  have hold : (∑ j ∈ owners, m (g j)) = m (g i) + ∑ j ∈ owners.erase i, m (g j) :=
    (add_sum_erase owners _ hi).symm
  rw [hnew, hold]
  ac_rfl

/-- Replacing an entry by one that weighs the same leaves the total. -/
theorem total_update_same_on [DecidableEq ι] [AddCommMonoid M]
    (owners : Finset ι) (g : ι → A) (m : A → M) (i : ι) (a : A)
    (h : m a = m (g i)) :
    (∑ j ∈ owners, m (update g i a j))
      = ∑ j ∈ owners, m (g j) := by
  refine sum_congr rfl ?_
  intro j _
  by_cases hj : j = i
  · subst hj
    rw [update_self, h]
  · rw [update_of_ne hj]

section

variable [Fintype ι]

theorem total_update [DecidableEq ι] [AddCommMonoid M] (g : ι → A)
    (m : A → M) (i : ι) (a : A) :
    (∑ j, m (update g i a j)) + m (g i) = (∑ j, m (g j)) + m a :=
  total_update_on univ g m i (mem_univ i) a

theorem total_update_same [DecidableEq ι] [AddCommMonoid M] (g : ι → A)
    (m : A → M) (i : ι) (a : A) (h : m a = m (g i)) :
    (∑ j, m (update g i a j)) = ∑ j, m (g j) :=
  total_update_same_on univ g m i a h

/-- One owner's share is at most the total. -/
theorem share_le_total (g : ι → A) (m : A → Nat) (i : ι) :
    m (g i) ≤ ∑ j, m (g j) :=
  single_le_sum (f := fun j => m (g j)) (fun _ _ => Nat.zero_le _)
    (mem_univ i)

end

end Ginfer.Lib
