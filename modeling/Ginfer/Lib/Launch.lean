/-
Programs of a launch that keep out of each other's way.

A launch runs its programs one after the other in some order; each sees
the memory the ones before it left and writes its own list of cells
(`run`). Where no program reads or writes what another writes, the order
does not matter: a cell holds what its owner writes into it when started
from the memory before the launch (`run_of_writes`), and a cell without
an owner is not changed (`run_of_not_writes`).

Memory is a dependent function, so that cells may hold different types.
-/
import Mathlib.Data.UInt

namespace Ginfer.Lib.Launch

open List Function

variable {ι α : Type} {β : α → Type} [DecidableEq α]

/-- Cells with what is stored there, in order. -/
abbrev Writes (β : α → Type) := List ((a : α) × β a)

/-- Memory after the writes. -/
def commit (m : (a : α) → β a) (writes : Writes β) : (a : α) → β a :=
  writes.foldl (fun m write => update m write.1 write.2) m

variable {m : (a : α) → β a}

theorem commit_of_ne {writes : Writes β} {a : α}
    (h : ∀ write ∈ writes, write.1 ≠ a) : commit m writes a = m a := by
  induction writes generalizing m with
  | nil => rfl
  | cons write rest ih =>
    have hhead := h write (.head _)
    have htail := ih (m := update m write.1 write.2)
      fun other hother => h other (.tail _ hother)
    rw [commit, foldl_cons]
    exact htail.trans (update_of_ne (Ne.symm hhead) _ _)

/-- A cell that is written one value only. -/
theorem commit_of_mem {writes : Writes β} {a : α}
    {x : β a} (hmem : ⟨a, x⟩ ∈ writes)
    (hone : ∀ write ∈ writes, write.1 = a → write = ⟨a, x⟩) :
    commit m writes a = x := by
  induction writes generalizing m with
  | nil => cases hmem
  | cons write rest ih =>
    rw [commit, foldl_cons]
    by_cases hlater : ⟨a, x⟩ ∈ rest
    · exact ih hlater fun other hother =>
        hone other (.tail _ hother)
    · -- The head is the last write of the cell.
      have hhead : ⟨a, x⟩ = write :=
        (mem_cons.mp hmem).resolve_right hlater
      have hrest : ∀ other ∈ rest, other.1 ≠ a := by
        intro other hother hsame
        have hsame := hone other (.tail _ hother) hsame
        exact hlater (hsame ▸ hother)
      subst hhead
      exact (commit_of_ne hrest).trans (update_self a x m)

/-- The same writes in another order, where a cell is written one value
only. -/
theorem commit_ext {writes writes' : Writes β}
    (hsame : ∀ write, write ∈ writes ↔ write ∈ writes')
    (hone : ∀ write ∈ writes', ∀ other ∈ writes', write.1 = other.1 →
      write = other) : commit m writes = commit m writes' := by
  funext a
  by_cases hwritten : ∃ write ∈ writes', write.1 = a
  · obtain ⟨⟨_, x⟩, hmem, rfl⟩ := hwritten
    have hunique : ∀ other ∈ writes', other.1 = _ → other = ⟨_, x⟩ :=
      fun other hother heq => hone other hother _ hmem heq
    rw [commit_of_mem hmem hunique, commit_of_mem ((hsame _).mpr hmem)
      fun other hother heq => hunique other ((hsame other).mp hother) heq]
  · have hnone : ∀ write ∈ writes', write.1 ≠ a :=
      fun write hwrite heq => hwritten ⟨write, hwrite, heq⟩
    rw [commit_of_ne hnone, commit_of_ne fun write hwrite =>
      hnone write ((hsame write).mp hwrite)]

/-- What the writes leave in a cell depends on that cell only. -/
theorem commit_congr {m' : (a : α) → β a} (writes : Writes β) {a : α}
    (h : m a = m' a) : commit m writes a = commit m' writes a := by
  induction writes generalizing m m' with
  | nil => exact h
  | cons write rest ih =>
    rw [commit, commit, foldl_cons, foldl_cons]
    refine ih ?_
    by_cases hsame : a = write.1
    · subst hsame
      rw [update_self, update_self]
    · rw [update_of_ne hsame, update_of_ne hsame, h]

-- ============ the launch

/-- The programs of `order`, one after the other. -/
def run (body : ι → ((a : α) → β a) → Writes β) (order : List ι)
    (m : (a : α) → β a) : (a : α) → β a :=
  order.foldl (fun m i => commit m (body i m)) m

/-- No program reads or writes what another writes. -/
structure Apart (body : ι → ((a : α) → β a) → Writes β)
    (mem : ι → Prop) (reads writes : ι → α → Prop) : Prop where
  sees : ∀ {i m m'}, mem i → (∀ a, reads i a → m a = m' a) → body i m = body i m'
  inside : ∀ {i m write}, mem i → write ∈ body i m → writes i write.1
  unread : ∀ {i j a}, mem i → mem j → i ≠ j → writes j a → ¬ reads i a
  alone : ∀ {i j a}, mem i → mem j → i ≠ j → writes j a → ¬ writes i a

variable {body : ι → ((a : α) → β a) → Writes β} {mem : ι → Prop}
  {reads writes : ι → α → Prop}

variable {order : List ι}

/-- A cell no program writes. -/
theorem run_of_not_writes (hapart : Apart body mem reads writes)
    (hall : ∀ i ∈ order, mem i) {a : α}
    (h : ∀ i ∈ order, ¬ writes i a) (m : (a : α) → β a) :
    run body order m a = m a := by
  induction order generalizing m with
  | nil => rfl
  | cons i rest ih =>
    have htail := ih (fun j hj => hall j (.tail _ hj))
      (fun j hj => h j (.tail _ hj)) (commit m (body i m))
    rw [run, foldl_cons]
    refine htail.trans (commit_of_ne ?_)
    rintro write hwrite rfl
    exact h i (.head _) (hapart.inside (hall i (.head _)) hwrite)

/-- A cell holds what its program writes. -/
theorem run_of_writes (hapart : Apart body mem reads writes)
    (hall : ∀ i ∈ order, mem i) (hnodup : order.Nodup)
    {i : ι} (hi : i ∈ order) {a : α} (ha : writes i a) (m : (a : α) → β a) :
    run body order m a = commit m (body i m) a := by
  induction order generalizing m with
  | nil => cases hi
  | cons j rest ih =>
    obtain ⟨hfresh, hrest⟩ := nodup_cons.mp hnodup
    have hall' : ∀ k ∈ rest, mem k := fun k hk =>
      hall k (.tail _ hk)
    have hj := hall j (.head _)
    rw [run, foldl_cons]
    by_cases hsame : i = j
    · subst hsame
      refine run_of_not_writes hapart hall' ?_ _
      intro k hk hwrites
      have hne : i ≠ k := fun heq => hfresh (heq ▸ hk)
      exact hapart.alone hj (hall' k hk) hne hwrites ha
    · have hi' : i ∈ rest := (mem_cons.mp hi).resolve_left hsame
      have hkept : ∀ b, reads i b ∨ writes i b →
          commit m (body j m) b = m b := by
        intro b hb
        refine commit_of_ne ?_
        rintro write hwrite rfl
        have hwrites := hapart.inside hj hwrite
        rcases hb with hread | hown
        · exact hapart.unread (hall i hi) hj hsame hwrites hread
        · exact hapart.alone (hall i hi) hj hsame hwrites hown
      have hbody : body i (commit m (body j m)) = body i m :=
        hapart.sees (hall i hi) fun b hb => hkept b (.inl hb)
      refine (ih hall' hrest hi' _).trans ?_
      rw [hbody]
      exact commit_congr _ (hkept a (.inr ha))

/-- Bodies that do the same. -/
theorem run_congr {body' : ι → ((a : α) → β a) → Writes β}
    (h : ∀ i ∈ order, ∀ m, commit m (body i m) = commit m (body' i m))
    (m : (a : α) → β a) : run body order m = run body' order m := by
  induction order generalizing m with
  | nil => rfl
  | cons i rest ih =>
    rw [run, run, foldl_cons, foldl_cons, h i mem_cons_self]
    exact ih (fun j hj => h j (.tail _ hj)) _

/-- Launches one after the other are one launch. -/
theorem run_append (first second : List ι) (m : (a : α) → β a) :
    run body (first ++ second) m = run body second (run body first m) :=
  foldl_append

end Ginfer.Lib.Launch
