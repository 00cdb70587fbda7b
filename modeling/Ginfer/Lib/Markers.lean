/-
Markers in a text that is put together from parts.

Where a marker cannot overlap itself, the one written behind a text
without it is the first (`first_of_simple`). An element that is not in the
marker separates: the marker is in what is before or in what is behind
(`infix_append_cons`).
-/
import Ginfer.Lib.HoldBack

namespace Ginfer.Lib

open List

variable {α : Type} {p a b : List α} {c : α}

-- ============ the separators

/-- A separator that is not in the marker. -/
theorem infix_append_cons (hc : c ∉ p) :
    p <:+: a ++ c :: b ↔ p <:+: a ∨ p <:+: b := by
  constructor
  · rintro ⟨before, after, h⟩
    rw [append_assoc] at h
    rcases append_eq_append_iff.mp h with
      ⟨x, ha, hrest⟩ | ⟨x, hbefore, hrest⟩
    · -- it begins before the separator, and must end there
      rcases append_eq_append_iff.mp hrest with
        ⟨y, hx, -⟩ | ⟨y, hp, hafter⟩
      · exact Or.inl ⟨before, y, by rw [ha, hx, append_assoc]⟩
      · cases y with
        | nil =>
          rw [append_nil] at hp
          exact Or.inl ⟨before, [], by rw [ha, hp, append_nil]⟩
        | cons d y =>
          obtain ⟨rfl, -⟩ := cons.inj hafter
          exact absurd (hp ▸ mem_append_right _ mem_cons_self) hc
    · cases x with
      | nil =>
        rw [nil_append] at hrest
        cases p with
        | nil => exact Or.inl nil_infix
        | cons d p =>
          obtain ⟨rfl, -⟩ := cons.inj hrest
          exact absurd mem_cons_self hc
      | cons d x =>
        obtain ⟨-, hb⟩ := cons.inj hrest
        exact Or.inr ⟨x, after, (append_assoc _ _ _).trans hb.symm⟩
  · rintro (h | h)
    · exact h.trans (prefix_append a _).isInfix
    · exact h.trans ((suffix_cons c b).trans (suffix_append a _)).isInfix

/-- A marker of which the separator is no part ends behind it. -/
theorem suffix_append_cons (hc : c ∉ p) : p <:+ a ++ c :: b ↔ p <:+ b := by
  constructor
  · rintro ⟨before, h⟩
    rcases append_eq_append_iff.mp h with
      ⟨x, -, hp⟩ | ⟨x, hbefore, hrest⟩
    · exact absurd (hp ▸ mem_append_right _ mem_cons_self) hc
    · cases x with
      | nil =>
        rw [nil_append] at hrest
        exact absurd (hrest ▸ mem_cons_self) hc
      | cons d x =>
        obtain ⟨-, hb⟩ := cons.inj hrest
        exact ⟨x, hb.symm⟩
  · exact fun h => h.trans ((suffix_cons c b).trans (suffix_append a _))

/-- A marker whose last element ends the text and is not in it before. -/
theorem infix_concat_concat (hc : c ∉ a) :
    p ++ [c] <:+: a ++ [c] ↔ p <:+ a := by
  constructor
  · intro h
    rcases infix_concat_iff.mp h with h | h
    · obtain ⟨before, hbefore⟩ := h
      exact ⟨before, append_cancel_right ((append_assoc _ _ _).trans hbefore)⟩
    · exact absurd (h.subset (mem_append_right _ (mem_singleton_self c))) hc
  · rintro ⟨before, rfl⟩
    exact ⟨before, [], by simp⟩

-- ============ the first occurrence

/-- A marker whose first element is not in the rest of it. -/
def Simple (p : List α) : Prop := ∃ c tail, p = c :: tail ∧ c ∉ tail

theorem Simple.ne_nil (h : Simple p) : p ≠ [] := by
  obtain ⟨c, tail, rfl, -⟩ := h
  exact cons_ne_nil _ _

/-- Behind a text without it, the marker occurs first. -/
theorem first_of_simple (hp : Simple p) (ha : ¬ p <:+: a) (rest : List α) :
    OccursAt p (a ++ (p ++ rest)) a.length
      ∧ ∀ j < a.length, ¬ OccursAt p (a ++ (p ++ rest)) j := by
  constructor
  · unfold OccursAt
    rw [drop_left]
    exact prefix_append _ _
  · intro j hj hocc
    by_cases hend : j + p.length ≤ a.length
    · have htake := hocc.take hend
      rw [take_left] at htake
      exact ha (infix_iff_occursAt.mpr ⟨j, htake⟩)
    · -- it would have its first element once more
      obtain ⟨c, tail, rfl, hc⟩ := hp
      obtain ⟨k, hk⟩ : ∃ k, a.length = j + (k + 1) :=
        ⟨a.length - j - 1, by omega⟩
      have hinside : k + 1 < (c :: tail).length := by omega
      obtain ⟨after, hafter⟩ := hocc
      have hget := congrArg (·[k + 1]?) hafter
      rw [getElem?_append_left hinside, getElem?_cons_succ,
        getElem?_drop, ← hk, getElem?_append_right
          (Nat.le_refl _), Nat.sub_self, cons_append,
        getElem?_cons_zero] at hget
      exact hc (mem_of_getElem? hget)

end Ginfer.Lib
