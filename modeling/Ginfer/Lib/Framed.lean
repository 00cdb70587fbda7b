/-
Patterns with a bracket at each end.

A pattern is `Framed` when it opens with a character it has nowhere else
and closes with one it has nowhere else. Such a pattern does not straddle
a cut of the text behind a closing character or before an opening one
(`prefix_append_of_closed`, `prefix_append_of_opens`), so what is found
in a text cut there is what is found in its parts.

`scan f` is everything a function of the rest of the text finds from left
to right; `scan_append` cuts it where `f` looks at no more than one part.
-/
import Mathlib.Data.UInt

namespace Ginfer.Lib

open List

variable {α β : Type}

-- ============ the patterns

/-- `pattern` opens with `opener` and closes with `closer`, and has
neither of them inside. -/
structure Framed (opener closer : α) (pattern : List α) : Prop where
  ne_nil : pattern ≠ []
  opens : pattern.head? = some opener
  closes : pattern.getLast? = some closer
  opener_once : opener ∉ pattern.tail
  closer_once : closer ∉ pattern.dropLast

/-- A text that begins with `c`, or is empty. -/
def Opens (c : α) (text : List α) : Prop :=
  text = [] ∨ text.head? = some c

/-- A text that ends with `c`, or is empty. -/
def Closed (c : α) (text : List α) : Prop :=
  text = [] ∨ text.getLast? = some c

namespace Framed

variable {opener closer : α} {pattern front back : List α}

/-- A pattern that reaches over a cut has the character behind it. -/
theorem exists_inside (h : pattern <+: front ++ back)
    (hlong : front.length < pattern.length) :
    ∃ c rest, back = c :: rest ∧ pattern[front.length]? = some c := by
  obtain ⟨more, hmore⟩ := h
  have hfront : front <+: pattern := by
    refine prefix_of_prefix_length_le (prefix_append front back)
      ⟨more, hmore⟩ (Nat.le_of_lt hlong)
  obtain ⟨inside, hinside⟩ := hfront
  rw [← hinside, append_assoc] at hmore
  have hback := append_cancel_left hmore
  cases inside with
  | nil =>
    rw [append_nil] at hinside
    rw [hinside] at hlong
    exact absurd hlong (Nat.lt_irrefl _)
  | cons c inside =>
    refine ⟨c, inside ++ more, hback.symm, ?_⟩
    rw [← hinside, List.getElem?_append_right (Nat.le_refl _), Nat.sub_self]
    rfl

/-- It does not reach over a cut before an opener. -/
theorem prefix_append_of_opens (hframed : Framed opener closer pattern)
    (hfront : front ≠ []) (hback : Opens opener back) :
    pattern <+: front ++ back ↔ pattern <+: front := by
  constructor
  · intro h
    rcases Nat.lt_or_ge front.length pattern.length with hlong | hshort
    · obtain ⟨c, rest, hc, hinside⟩ := exists_inside h hlong
      rcases hback with hnil | hopener
      · rw [hnil] at hc
        cases hc
      · rw [hc, List.head?_cons, Option.some_inj] at hopener
        rw [hopener] at hinside
        refine absurd ?_ hframed.opener_once
        have hpos := length_pos_iff.mpr hfront
        have htail : pattern.tail[front.length - 1]? = some opener := by
          rw [List.getElem?_tail, Nat.sub_add_cancel hpos]
          exact hinside
        exact mem_of_getElem? htail
    · exact prefix_of_prefix_length_le h (prefix_append _ _) hshort
  · exact fun h => h.trans (prefix_append _ _)

/-- It does not reach over a cut behind a closer. -/
theorem prefix_append_of_closed (hframed : Framed opener closer pattern)
    (hfront : front ≠ []) (hclosed : Closed closer front) :
    pattern <+: front ++ back ↔ pattern <+: front := by
  constructor
  · intro h
    rcases Nat.lt_or_ge front.length pattern.length with hlong | hshort
    · have hpre : front <+: pattern :=
        prefix_of_prefix_length_le (prefix_append front back) h
          (Nat.le_of_lt hlong)
      obtain ⟨inside, hinside⟩ := hpre
      rcases hclosed with hnil | hcloser
      · exact absurd hnil hfront
      · refine absurd ?_ hframed.closer_once
        have hne : inside ≠ [] := by
          rintro rfl
          rw [append_nil] at hinside
          rw [hinside] at hlong
          exact absurd hlong (Nat.lt_irrefl _)
        rw [← hinside, dropLast_append_of_ne_nil hne]
        exact mem_append_left _ (mem_of_getLast? hcloser)
    · exact prefix_of_prefix_length_le h (prefix_append _ _) hshort
  · exact fun h => h.trans (prefix_append _ _)

end Framed

-- ============ the scan

/-- What `f` finds in a text, from left to right. -/
def scan (f : List α → Option β) : List α → List β
  | [] => []
  | a :: rest => (f (a :: rest)).toList ++ scan f rest

/-- In front of the cut, `f` does not look behind it. -/
def LooksWithin (f : List α → Option β) (front back : List α) : Prop :=
  ∀ part, part ≠ [] → part <:+ front → f (part ++ back) = f part

theorem scan_append {f : List α → Option β} {front back : List α}
    (h : LooksWithin f front back) :
    scan f (front ++ back) = scan f front ++ scan f back := by
  induction front with
  | nil => rfl
  | cons a front ih =>
    have hhere := h (a :: front) (cons_ne_nil _ _) (suffix_refl _)
    rw [cons_append] at hhere
    rw [cons_append, scan, scan, hhere, append_assoc,
      ih fun part hne hpart => h part hne (hpart.trans (suffix_cons a front))]

/-- Nothing is found where nothing is anywhere. -/
theorem scan_eq_nil {f : List α → Option β} {text : List α}
    (h : ∀ part, part ≠ [] → part <:+ text → f part = none) :
    scan f text = [] := by
  induction text with
  | nil => rfl
  | cons a rest ih =>
    rw [scan, h (a :: rest) (cons_ne_nil _ _) (suffix_refl _),
      ih fun part hne hpart => h part hne (hpart.trans (suffix_cons a rest))]
    rfl

/-- What is found further on is found. -/
theorem scan_drop_sublist (f : List α → Option β) (n : Nat) (text : List α) :
    (scan f (text.drop n)).Sublist (scan f text) := by
  induction n generalizing text with
  | zero => exact List.Sublist.refl _
  | succ n ih =>
    cases text with
    | nil => exact List.Sublist.refl _
    | cons a rest =>
      rw [drop_succ_cons, scan]
      exact (ih rest).trans (sublist_append_right _ _)

end Ginfer.Lib
