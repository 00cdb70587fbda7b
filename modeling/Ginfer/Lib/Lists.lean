/-
Lists as stores.

Two uses of a list stand for a C++ container here. A store whose objects
go by their position is a list that grows at its end and is written in
place; what is said about it is said of `l[i]?`, and a total or a count
over it moves by the entry that was written. A map is a list of pairs
with distinct keys; `eraseKey_sum` is how a total moves when an entry
goes.
-/
import Mathlib.Data.UInt

namespace Ginfer.Lib

open List

variable {α β : Type}

-- ============ positions

variable {l : List α} {i j : Nat} {a : α}

/-- An entry of a list one entry of which was written. -/
theorem getElem?_set_cases {x : α} (h : (l.set i a)[j]? = some x) :
    (j = i ∧ x = a) ∨ (j ≠ i ∧ l[j]? = some x) := by
  by_cases hij : j = i
  · subst hij
    rw [getElem?_set_self'] at h
    cases hl : l[j]? with
    | none => simp [hl] at h
    | some y =>
      simp [hl] at h
      exact Or.inl ⟨rfl, h.symm⟩
  · rw [getElem?_set_ne (Ne.symm hij)] at h
    exact Or.inr ⟨hij, h⟩

/-- The entry that was written. -/
theorem getElem?_set_same {b : α}
    (h : l[i]? = some b) : (l.set i a)[i]? = some a := by
  rw [getElem?_set_self', h]
  rfl

/-- An entry of a list that grew by one. -/
theorem getElem?_concat_cases {x : α} (h : (l ++ [a])[j]? = some x) :
    (j = l.length ∧ x = a) ∨ l[j]? = some x := by
  rcases Nat.lt_trichotomy j l.length with hlt | heq | hgt
  · rw [getElem?_append_left hlt] at h
    exact Or.inr h
  · subst heq
    rw [getElem?_concat_length] at h
    exact Or.inl ⟨rfl, (Option.some.inj h).symm⟩
  · rw [getElem?_eq_none (by simp; omega)] at h
    cases h

/-- The old entries of a list that grew. -/
theorem getElem?_concat_old {x : α}
    (h : l[j]? = some x) : (l ++ [a])[j]? = some x := by
  rw [List.getElem?_append_left (List.getElem?_eq_some_iff.mp h).1]
  exact h

/-- A total over a list one entry of which was written. -/
theorem sum_map_set (g : α → Nat) (b : α) (h : l[i]? = some a) :
    ((l.set i b).map g).sum + g a = (l.map g).sum + g b := by
  induction l generalizing i with
  | nil => cases h
  | cons x rest ih =>
    cases i with
    | zero =>
      cases h
      rw [set_cons_zero, map_cons, map_cons, sum_cons, sum_cons]
      omega
    | succ i =>
      have hrest := ih (i := i) h
      rw [set_cons_succ, map_cons, map_cons, sum_cons, sum_cons]
      omega

/-- One entry is at most the total. -/
theorem le_sum_map (g : α → Nat)
    (h : l[i]? = some a) : g a ≤ (l.map g).sum := by
  induction l generalizing i with
  | nil => cases h
  | cons x rest ih =>
    rw [map_cons, sum_cons]
    cases i with
    | zero =>
      cases h
      exact Nat.le_add_right _ _
    | succ i =>
      exact Nat.le_trans (ih (i := i) h) (Nat.le_add_left _ _)

-- ============ loops

/-- A loop over a list none of whose steps fails. -/
theorem mapM_pure {m : Type → Type} [Monad m] [LawfulMonad m] {f : α → m β}
    {g : α → β} (h : ∀ x ∈ l, f x = pure (g x)) :
    l.mapM f = pure (l.map g) := by
  induction l with
  | nil => rfl
  | cons x l ih =>
    have htail := ih fun y hy => h y (mem_cons_of_mem x hy)
    rw [mapM_cons, h x mem_cons_self, htail, pure_bind, pure_bind, map_cons]

/-- A range that is filtered to what is before an end. -/
theorem filterMap_range_lt {α : Type} {n m : Nat} (h : m ≤ n)
    (f : Nat → Option α) :
    ((List.range n).filterMap fun c => if c < m then f c else none)
      = (List.range m).filterMap f := by
  obtain ⟨k, rfl⟩ := Nat.exists_eq_add_of_le h
  rw [range_add, filterMap_append, filterMap_map]
  have hbefore : ((range m).filterMap fun c =>
      if c < m then f c else none) = (range m).filterMap f :=
    filterMap_congr fun c hc => if_pos (mem_range.mp hc)
  have hbehind : (range k).filterMap
      ((fun c => if c < m then f c else none) ∘ (m + ·)) = [] := by
    rw [filterMap_eq_nil_iff]
    exact fun c _ => if_neg (Nat.not_lt.mpr (Nat.le_add_right m c))
  rw [hbefore, hbehind, append_nil]

-- ============ maps

/-- The keys of a map. -/
def keys (l : List (α × β)) : List α := l.map Prod.fst

variable [DecidableEq α]

theorem keys_eraseKey (l : List (α × β)) (key : α) :
    keys (l.filter fun e => e.1 ≠ key) = (keys l).filter (· ≠ key) := by
  unfold keys
  rw [filter_map]
  rfl

/-- A lookup that fails. -/
theorem find?_eq_none_iff {l : List (α × β)} {key : α} :
    (l.find? fun e => e.1 = key) = none ↔ key ∉ keys l := by
  rw [find?_eq_none]
  unfold keys
  constructor
  · intro h hmem
    obtain ⟨e, he, rfl⟩ := mem_map.mp hmem
    exact absurd (decide_eq_true rfl) (h e he)
  · intro h e he heq
    exact h (mem_map.mpr ⟨e, he, of_decide_eq_true heq⟩)

/-- The total over a map, less an entry that goes. -/
theorem eraseKey_sum (g : α × β → Nat) {l : List (α × β)} {key : α}
    {e : α × β} (hnodup : (keys l).Nodup)
    (h : (l.find? fun e => e.1 = key) = some e) :
    ((l.filter fun e => e.1 ≠ key).map g).sum + g e = (l.map g).sum := by
  induction l with
  | nil => cases h
  | cons x rest ih =>
    obtain ⟨hx, hrest⟩ := nodup_cons.mp hnodup
    by_cases hkey : x.1 = key
    · rw [find?_cons_of_pos (by simpa using hkey)] at h
      cases h
      have hall : rest.filter (fun e => e.1 ≠ key) = rest := by
        refine filter_eq_self.mpr fun y hy => decide_eq_true ?_
        intro hyk
        exact hx (mem_map.mpr ⟨y, hy, hyk.trans hkey.symm⟩)
      rw [filter_cons_of_neg (by simpa using hkey), hall,
        map_cons, sum_cons, Nat.add_comm]
    · rw [find?_cons_of_neg (by simpa using hkey)] at h
      have hsum := ih hrest h
      rw [filter_cons_of_pos (by simpa using hkey), map_cons,
        map_cons, sum_cons, sum_cons]
      omega

end Ginfer.Lib
