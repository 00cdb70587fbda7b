/-
Drawing the best, one after the other, from sorted queues.

The heads of all queues are compared by halving: each of the first `n`
lanes keeps the better of its own and the one `n` lanes further, so the
best of the first half is the best of all (`IsBest.of_halving`). Drawing
the best head and dropping it from its queue keeps what was drawn in
order and ahead of all that is left (`Drawn.draw`).

`better` is a strict order in which values may tie; across two queues
nothing ties.
-/
import Mathlib.Data.UInt

namespace Ginfer.Lib

open Function List

variable {β : Type*} {better : β → β → Prop}

-- ============ the best lane

/-- `best` is the value of one of the first `n` lanes, none of which is
better. -/
structure IsBest (better : β → β → Prop) (value : Nat → β) (n : Nat)
    (best : β) : Prop where
  lane : ∃ l < n, value l = best
  none_better : ∀ l < n, ¬ better (value l) best

theorem IsBest.one (hirrefl : ∀ a, ¬ better a a) (value : Nat → β) :
    IsBest better value 1 (value 0) where
  lane := ⟨0, Nat.one_pos, rfl⟩
  none_better l hl := by
    have hzero : l = 0 := by omega
    rw [hzero]
    exact hirrefl _

/-- One halving: the best of the kept values is the best of all. -/
theorem IsBest.of_halving [DecidableRel better] (hirrefl : ∀ a, ¬ better a a)
    (hasymm : ∀ {a b}, better a b → ¬ better b a)
    (hties : ∀ {a b c}, ¬ better a b → ¬ better b c → ¬ better a c)
    {value kept : Nat → β} {n : Nat} {best : β}
    (hkept : ∀ l < n, kept l =
      if better (value (l + n)) (value l) then value (l + n) else value l)
    (h : IsBest better kept n best) :
    IsBest better value (n + n) best := by
  -- Neither of the two values a lane compares beats the kept one.
  have hlow : ∀ l < n, ¬ better (value l) (kept l) := by
    intro l hl
    rw [hkept l hl]
    by_cases hfar : better (value (l + n)) (value l)
    · rw [if_pos hfar]
      exact hasymm hfar
    · rw [if_neg hfar]
      exact hirrefl _
  have hhigh : ∀ l < n, ¬ better (value (l + n)) (kept l) := by
    intro l hl
    rw [hkept l hl]
    by_cases hfar : better (value (l + n)) (value l)
    · rw [if_pos hfar]
      exact hirrefl _
    · rw [if_neg hfar]
      exact hfar
  constructor
  · obtain ⟨l, hl, hbest⟩ := h.lane
    rw [hkept l hl] at hbest
    by_cases hfar : better (value (l + n)) (value l)
    · rw [if_pos hfar] at hbest
      exact ⟨l + n, by omega, hbest⟩
    · rw [if_neg hfar] at hbest
      exact ⟨l, by omega, hbest⟩
  · intro l hl
    by_cases hhalf : l < n
    · exact hties (hlow l hhalf) (h.none_better l hhalf)
    · have hsub : l - n < n := by omega
      have hback : l - n + n = l := by omega
      have hbeat := hhigh (l - n) hsub
      rw [hback] at hbeat
      exact hties hbeat (h.none_better (l - n) hsub)

-- ============ the queues

/-- `drawn` has been taken off the front of `n` sorted queues, the best
first, and is ahead of what they still hold. -/
structure Drawn (better : β → β → Prop) (n : Nat) (queues : Nat → List β)
    (drawn : List β) : Prop where
  sorted : ∀ l < n, (queues l).Pairwise better
  apart : ∀ l < n, ∀ m < n, l ≠ m → ∀ x ∈ queues l, ∀ y ∈ queues m,
    better x y ∨ better y x
  inOrder : drawn.Pairwise better
  ahead : ∀ x ∈ drawn, ∀ l < n, ∀ y ∈ queues l, better x y

/-- Nothing drawn yet. -/
theorem Drawn.start {n : Nat} {queues : Nat → List β}
    (hsorted : ∀ l < n, (queues l).Pairwise better)
    (hapart : ∀ l < n, ∀ m < n, l ≠ m → ∀ x ∈ queues l, ∀ y ∈ queues m,
      better x y ∨ better y x) :
    Drawn better n queues [] :=
  ⟨hsorted, hapart, Pairwise.nil, nofun⟩

section

variable {n : Nat} {queues : Nat → List β} {drawn : List β} {lane : Nat}
  {x : β} {rest : List β}

/-- What a queue holds after the draw, it held before. -/
theorem mem_of_mem_update (hqueue : queues lane = x :: rest) {l : Nat}
    {y : β} (hy : y ∈ update queues lane rest l) :
    y ∈ queues l := by
  by_cases hl : l = lane
  · rw [hl, update_self] at hy
    rw [hl, hqueue]
    exact mem_cons_of_mem x hy
  · rwa [update_of_ne hl] at hy

/-- Drawing the best head keeps the order. -/
theorem Drawn.draw (htrans : ∀ {a b c}, better a b → better b c → better a c)
    (h : Drawn better n queues drawn) (hlane : lane < n)
    (hqueue : queues lane = x :: rest)
    (hbest : ∀ l < n, ∀ y ∈ (queues l).head?, ¬ better y x) :
    Drawn better n (update queues lane rest) (drawn ++ [x]) := by
  have hlane' := h.sorted lane hlane
  rw [hqueue, pairwise_cons] at hlane'
  obtain ⟨hfront, hrest⟩ := hlane'
  constructor
  · intro l hl
    by_cases hsame : l = lane
    · rw [hsame, update_self]
      exact hrest
    · rw [update_of_ne hsame]
      exact h.sorted l hl
  · intro l hl m hm hne y hy z hz
    exact h.apart l hl m hm hne y (mem_of_mem_update hqueue hy) z
      (mem_of_mem_update hqueue hz)
  · rw [pairwise_append]
    refine ⟨h.inOrder, pairwise_singleton _ _, ?_⟩
    intro y hy z hz
    rw [mem_singleton] at hz
    rw [hz]
    exact h.ahead y hy lane hlane x (by rw [hqueue]; exact mem_cons_self)
  · intro y hy l hl z hz
    rw [mem_append, mem_singleton] at hy
    rcases hy with hy | rfl
    · exact h.ahead y hy l hl z (mem_of_mem_update hqueue hz)
    · -- The one drawn now: against its own queue, and against another's
      -- head and so against all behind that.
      by_cases hsame : l = lane
      · rw [hsame, update_self] at hz
        exact hfront z hz
      · rw [update_of_ne hsame] at hz
        cases hhead : queues l with
        | nil =>
          rw [hhead] at hz
          exact absurd hz not_mem_nil
        | cons head tail =>
          have hheld : y ∈ queues lane := by
            rw [hqueue]
            exact mem_cons_self
          have hwins : better y head := by
            have hnot := hbest l hl head (by rw [hhead]; rfl)
            have hcompare := h.apart lane hlane l hl (Ne.symm hsame) y
              hheld head (by rw [hhead]; exact mem_cons_self)
            exact hcompare.resolve_right hnot
          have hsorted := h.sorted l hl
          rw [hhead, pairwise_cons] at hsorted
          rw [hhead, mem_cons] at hz
          rcases hz with rfl | hz
          · exact hwins
          · exact htrans hwins (hsorted.1 z hz)

/-- Nothing is lost: what was there is drawn or still in its queue. -/
theorem drawn_or_held (hqueue : queues lane = x :: rest) {l : Nat} {y : β}
    (hy : y ∈ drawn ∨ y ∈ queues l) :
    y ∈ drawn ++ [x] ∨ y ∈ update queues lane rest l := by
  rcases hy with hy | hy
  · exact .inl (mem_append_left _ hy)
  · by_cases hl : l = lane
    · rw [hl, hqueue, mem_cons] at hy
      rcases hy with rfl | hy
      · exact .inl (mem_append_right _ mem_cons_self)
      · rw [hl, update_self]
        exact .inr hy
    · rw [update_of_ne hl]
      exact .inr hy

end

end Ginfer.Lib
