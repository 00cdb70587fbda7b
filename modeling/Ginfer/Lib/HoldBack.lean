/-
Searching a text that arrives in pieces, with the end held back.

A filter looks for any of a set of patterns in a text it is fed piece by
piece and publishes what can no longer be part of one. It keeps the
published part out of the search and searches only what it holds back,
with the new piece behind it. `HeldBack` is the invariant that makes this
the search of the whole text: no pattern occurs yet, and every end of the
text that begins a pattern lies inside the part held back, which itself
begins one, so that nothing is held back in vain.

- `HeldBack.occursAt_iff` — an occurrence in the whole text is one in the
  held part and the new piece, shifted by what was published;
- `HeldBack.next` — the invariant after a piece that completes no pattern,
  holding back the longest end that begins one.
-/
import Mathlib.Data.UInt

namespace Ginfer.Lib

open List

variable {α : Type} {P : List α → Prop} {published pending pattern : List α}

/-- `pattern` occurs in `text` at `i`. -/
def OccursAt (pattern text : List α) (i : Nat) : Prop :=
  pattern <+: text.drop i

variable {text : List α} {i : Nat}

theorem OccursAt.length_le (h : OccursAt pattern text i) (hne : pattern ≠ []) :
    i + pattern.length ≤ text.length := by
  have hle := List.IsPrefix.length_le h
  have hpos := length_pos_iff.mpr hne
  rw [length_drop] at hle
  omega

/-- An occurrence in a text is one in every longer text. -/
theorem OccursAt.append
    (h : OccursAt pattern text i) (hne : pattern ≠ []) (more : List α) :
    OccursAt pattern (text ++ more) i := by
  have hle := h.length_le hne
  unfold OccursAt at *
  rw [drop_append_of_le_length (by omega)]
  exact h.trans (prefix_append _ _)

/-- An occurrence that ends before `n` is one in the first `n`. -/
theorem OccursAt.take {n : Nat}
    (h : OccursAt pattern text i) (hle : i + pattern.length ≤ n) :
    OccursAt pattern (text.take n) i := by
  obtain ⟨tail, htail⟩ := h
  refine ⟨tail.take (n - i - pattern.length), ?_⟩
  have hpattern : pattern.take (n - i) = pattern :=
    take_of_length_le (by omega)
  rw [drop_take, ← htail, take_append, hpattern]

theorem infix_iff_occursAt :
    pattern <:+: text ↔ ∃ i, OccursAt pattern text i := by
  constructor
  · rintro ⟨before, after, rfl⟩
    refine ⟨before.length, after, ?_⟩
    simp
  · rintro ⟨i, after, hafter⟩
    refine ⟨text.take i, after, ?_⟩
    rw [append_assoc, hafter, take_append_drop]

/-- No pattern occurs in what was fed, and the longest end of it that
begins a pattern is held back. -/
structure HeldBack (P : List α → Prop) (published pending : List α) :
    Prop where
  clear : ∀ p, P p → ∀ i, ¬ OccursAt p (published ++ pending) i
  held : ∀ p, P p → ∀ n, n < p.length →
    p.take n <:+ published ++ pending → n ≤ pending.length
  begins : pending ≠ [] → ∃ p, P p ∧ pending.length < p.length ∧ pending <+: p

/-- Before anything is fed. -/
theorem HeldBack.start (hP : ∀ p, P p → p ≠ []) :
    HeldBack P ([] : List α) [] where
  clear := by
    intro p hp i hocc
    have hle := hocc.length_le (hP p hp)
    have hpos := length_pos_iff.mpr (hP p hp)
    rw [append_nil, length_nil] at hle
    omega
  held := by
    intro p _ n hn hsuffix
    have hle := hsuffix.length_le
    simp only [length_take, append_nil, length_nil] at hle
    omega
  begins := fun h => absurd rfl h

/-- The patterns are not empty. -/
theorem HeldBack.ne_nil (h : HeldBack P published pending)
    (hp : P pattern) : pattern ≠ [] := by
  rintro rfl
  exact h.clear [] hp 0 nil_prefix

/-- What is published can be forgotten: the search of the whole text is
the search of the held part with the new piece. -/
theorem HeldBack.occursAt_iff (h : HeldBack P published pending)
    (hp : P pattern) (piece : List α) (i : Nat) :
    OccursAt pattern (published ++ (pending ++ piece)) i
      ↔ published.length ≤ i
        ∧ OccursAt pattern (pending ++ piece) (i - published.length) := by
  have hne := h.ne_nil hp
  constructor
  · intro hocc
    have hlong := hocc.length_le hne
    by_cases hi : published.length ≤ i
    · refine ⟨hi, ?_⟩
      unfold OccursAt at hocc
      rw [drop_append, drop_of_length_le hi, nil_append] at hocc
      exact hocc
    · -- It begins in the published part: then it reaches into the piece,
      -- and its beginning was an end of the text, longer than the part
      -- held back.
      exfalso
      have hinside : ¬ i + pattern.length ≤ (published ++ pending).length := by
        intro hle
        have htake := hocc.take hle
        rw [← append_assoc, take_left'] at htake
        · exact h.clear pattern hp i htake
        · rfl
      rw [length_append] at hinside
      have hend : pattern.take ((published ++ pending).length - i)
          = (published ++ pending).drop i := by
        obtain ⟨tail, htail⟩ := hocc
        rw [← append_assoc, drop_append_of_le_length
          (by rw [length_append]; omega)] at htail
        have htakes := congrArg
          (List.take ((published ++ pending).length - i)) htail
        rw [take_append_of_le_length (by rw [length_append]; omega),
          take_left' (by rw [length_drop])] at htakes
        exact htakes
      have hheld := h.held pattern hp ((published ++ pending).length - i)
        (by rw [length_append]; omega)
        (by rw [hend]; exact drop_suffix _ _)
      rw [length_append] at hheld
      omega
  · rintro ⟨hi, hocc⟩
    unfold OccursAt at *
    rw [drop_append, drop_of_length_le hi, nil_append]
    exact hocc

/-- A suffix of a concatenation, against the second part. -/
theorem suffix_append_cases {a b c : List α} (h : a <:+ b ++ c) :
    a <:+ c ∨ ∃ d, a = d ++ c ∧ d <:+ b := by
  by_cases hle : a.length ≤ c.length
  · exact Or.inl (suffix_of_suffix_length_le h (suffix_append b c) hle)
  · obtain ⟨d, hd⟩ := suffix_of_suffix_length_le
      (suffix_append b c) h (by omega)
    refine Or.inr ⟨d, hd.symm, ?_⟩
    rw [← hd] at h
    obtain ⟨e, he⟩ := h
    rw [← append_assoc] at he
    exact ⟨e, append_cancel_right he⟩

/-- A piece that completes no pattern: `hold` of the end is kept, the
longest end that begins a pattern. -/
theorem HeldBack.next (h : HeldBack P published pending)
    (piece : List α) (hold : Nat)
    (hclear : ∀ p, P p → ∀ i, ¬ OccursAt p (pending ++ piece) i)
    (hhold : ∀ p, P p → ∀ n, n < p.length →
      p.take n <:+ pending ++ piece → n ≤ hold)
    (hle : hold ≤ (pending ++ piece).length)
    (hbegins : 0 < hold → ∃ p, P p ∧ hold < p.length
      ∧ p.take hold <:+ pending ++ piece) :
    HeldBack P
      (published ++ (pending ++ piece).take ((pending ++ piece).length - hold))
      ((pending ++ piece).drop ((pending ++ piece).length - hold)) := by
  have hwhole : published ++ (pending ++ piece).take
        ((pending ++ piece).length - hold)
      ++ (pending ++ piece).drop ((pending ++ piece).length - hold)
      = published ++ (pending ++ piece) := by
    rw [append_assoc, take_append_drop]
  have hkept : ((pending ++ piece).drop
      ((pending ++ piece).length - hold)).length = hold := by
    rw [length_drop]
    omega
  refine ⟨?_, ?_, ?_⟩
  · intro p hp i hocc
    rw [hwhole] at hocc
    exact hclear p hp _ ((h.occursAt_iff hp piece i).mp hocc).2
  · intro p hp n hn hsuffix
    rw [hwhole] at hsuffix
    rw [hkept]
    rcases suffix_append_cases hsuffix with hinside | ⟨d, hd, hsuffix'⟩
    · exact hhold p hp n hn hinside
    · -- The end begins in the published part: then it was there before.
      have hlength : n = d.length + (pending ++ piece).length := by
        have := congrArg List.length hd
        rw [length_take, length_append] at this
        omega
      rw [length_append] at hlength
      have hbefore : p.take (d.length + pending.length) = d ++ pending := by
        have htake : p.take (d.length + pending.length)
            = (p.take n).take (d.length + pending.length) := by
          rw [take_take, Nat.min_eq_left (by omega)]
        rw [htake, hd, ← append_assoc]
        exact take_left' (by rw [length_append])
      have hold' := h.held p hp (d.length + pending.length) (by omega) (by
        rw [hbefore]
        obtain ⟨e, he⟩ := hsuffix'
        exact ⟨e, by rw [← append_assoc, he]⟩)
      obtain rfl : d = [] := length_eq_zero_iff.mp (by omega)
      refine hhold p hp n hn ⟨[], ?_⟩
      rw [hd]
      rfl
  · intro hne
    have hpos : 0 < hold := by
      rw [← hkept]
      exact length_pos_iff.mpr hne
    obtain ⟨p, hp, hlt, hsuffix⟩ := hbegins hpos
    refine ⟨p, hp, by omega, ?_⟩
    have hend := suffix_iff_eq_drop.mp hsuffix
    rw [length_take, Nat.min_eq_left (by omega)] at hend
    rw [← hend]
    exact take_prefix _ _

end Ginfer.Lib
