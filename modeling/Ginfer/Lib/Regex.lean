/-
Regular expressions as a backtracking matcher reads them.

An expression does not only say what it matches but what it tries first:
an alternation its left side, a repetition one more round. `ends` lists
the lengths of all matches at the front of a text in the order a
backtracking matcher would come to them, and a match is the head of that
list. `search` is the leftmost match, `findAll` the successive ones.

# The rules

The head of a list of ends is computed from the parts:

- `first_alts` — the first alternative that matches at all;
- `first_seq` — the first end of the left part from which the right part
  goes on, which is where backtracking happens;
- `ends_many_one`, `ends_plus_one` — a repeated class counts down from the
  whole run of it, so what follows it is tried after the longest run
  first (`findSome_countdown`).
-/
import Mathlib.Data.UInt

namespace Ginfer.Lib

open List

/-- A regular expression over the characters `α`; a class is a
predicate. -/
inductive Regex (α : Type) where
  | empty
  | one (p : α → Bool)
  | seq (r s : Regex α)
  | alt (r s : Regex α)
  /-- as many rounds as there are, then fewer -/
  | many (r : Regex α)
  /-- matches nothing, where no character of the class comes next -/
  | notBefore (p : α → Bool)

namespace Regex

variable {α : Type}

-- ============ the matches

/-- The ends of a repetition: after a round, more rounds, or none. A round
that consumes nothing is not repeated. -/
def manyEnds (round : List α → List Nat) : Nat → List α → List Nat
  | 0, _ => [0]
  | fuel + 1, text =>
    ((round text).flatMap fun n =>
      if n = 0 then []
      else (manyEnds round fuel (text.drop n)).map (n + ·)) ++ [0]

/-- The lengths of the matches at the front of a text, in the order they
are tried. -/
def ends : Regex α → List α → List Nat
  | empty, _ => [0]
  | one _, [] => []
  | one p, a :: _ => if p a then [1] else []
  | seq r s, text =>
    (ends r text).flatMap fun n => (ends s (text.drop n)).map (n + ·)
  | alt r s, text => ends r text ++ ends s text
  | many r, text => manyEnds (ends r) text.length text
  | notBefore p, text => if text.head?.any p then [] else [0]

/-- The match at the front of a text. -/
def first (r : Regex α) (text : List α) : Option Nat := (ends r text).head?

/-- The leftmost match: how much is skipped, and its length. -/
def search (r : Regex α) : List α → Option (Nat × Nat)
  | [] => (first r []).map ((0, ·))
  | a :: rest =>
    match first r (a :: rest) with
    | some n => some (0, n)
    | none => (search r rest).map fun found => (found.1 + 1, found.2)

/-- The loop of `findAll`; after an empty match the search goes on one
character further. -/
def findAllFrom (r : Regex α) : Nat → List α → List (List α)
  | 0, _ => []
  | fuel + 1, text =>
    match search r text with
    | none => []
    | some (skipped, n) =>
      (text.drop skipped).take n
        :: findAllFrom r fuel (text.drop (skipped + max n 1))

/-- The successive leftmost matches in a text. -/
def findAll (r : Regex α) (text : List α) : List (List α) :=
  findAllFrom r (text.length + 1) text

-- ============ derived forms

/-- `r?`. -/
def opt (r : Regex α) : Regex α := alt r empty

/-- `r+`. -/
def plus (r : Regex α) : Regex α := seq r (many r)

/-- The alternatives of a list, in order. -/
def alts : List (Regex α) → Regex α
  | [] => one fun _ => false
  | r :: rest => alt r (alts rest)

/-- One character of each class, in order. -/
def word : List (α → Bool) → Regex α
  | [] => empty
  | p :: rest => seq (one p) (word rest)

-- ============ the heads

theorem first_alt (r s : Regex α) (text : List α) :
    first (alt r s) text = (first r text).or (first s text) := by
  unfold first
  rw [ends, head?_append]

theorem first_seq (r s : Regex α) (text : List α) :
    first (seq r s) text
      = (ends r text).findSome? fun n =>
        (first s (text.drop n)).map (n + ·) := by
  unfold first
  rw [ends, head?_flatMap]
  congr 1
  funext n
  exact head?_map

theorem first_alts_nil (text : List α) : first (alts []) text = none := by
  cases text <;> rfl

theorem first_alts_cons (r : Regex α) (rest : List (Regex α)) (text : List α) :
    first (alts (r :: rest)) text = (first r text).or (first (alts rest) text) :=
  first_alt r (alts rest) text

/-- A sequence of classes matches its own length or nothing. -/
theorem first_word (classes : List (α → Bool)) (text : List α) :
    first (word classes) text
      = if classes.length ≤ text.length
        ∧ (classes.zip text).all (fun c => c.1 c.2) = true
        then some classes.length else none := by
  induction classes generalizing text with
  | nil => rfl
  | cons p rest ih =>
    cases text with
    | nil => rfl
    | cons a text =>
      rw [word, first_seq]
      cases hp : p a with
      | false => simp [ends, hp]
      | true =>
        simp only [ends, hp, if_true, findSome?_cons,
          findSome?_nil, drop_succ_cons, drop_zero,
          ih, length_cons, zip_cons_cons, all_cons,
          Bool.true_and, Nat.add_le_add_iff_right]
        split_ifs <;> simp [Nat.add_comm]

-- ============ repeated classes

/-- The length of the run of a class at the front. -/
def run (p : α → Bool) (text : List α) : Nat :=
  (text.takeWhile p).length

@[simp] theorem run_nil (p : α → Bool) : run p [] = 0 := rfl

theorem run_cons (p : α → Bool) (a : α) (rest : List α) :
    run p (a :: rest) = if p a then run p rest + 1 else 0 := by
  unfold run
  rw [takeWhile_cons]
  split <;> rfl

theorem run_le (p : α → Bool) (text : List α) : run p text ≤ text.length :=
  ( takeWhile_prefix p).length_le

/-- Every character of the run is of the class. -/
theorem run_all {p : α → Bool} {text : List α} {n : Nat}
    (h : n < run p text) : (text.drop n).head?.any p = true := by
  induction text generalizing n with
  | nil => exact absurd h (Nat.not_lt_zero n)
  | cons a rest ih =>
    rw [run_cons] at h
    split at h
    · next hp =>
      cases n with
      | zero => exact hp
      | succ n => exact ih (by omega)
    · omega

/-- The character after the run is not. -/
theorem run_stops (p : α → Bool) (text : List α) :
    (text.drop (run p text)).head?.any p = false := by
  induction text with
  | nil => rfl
  | cons a rest ih =>
    rw [run_cons]
    split
    · exact ih
    · next hp => simpa using hp

/-- A run is as long as the characters are of the class. -/
theorem run_pos_iff (p : α → Bool) (text : List α) :
    0 < run p text ↔ text.head?.any p = true := by
  cases text with
  | nil => simp
  | cons a rest =>
    rw [run_cons]
    split
    · next hp => simp [hp]
    · next hp => simp [hp]

/-- `n` down to zero. -/
def countdown (n : Nat) : List Nat := (List.range (n + 1)).reverse

theorem countdown_succ (n : Nat) :
    countdown (n + 1) = (n + 1) :: countdown n := by
  unfold countdown
  rw [range_succ, reverse_append]
  rfl

/-- Counting down from one more is counting down shifted, then zero. -/
theorem countdown_succ_map (n : Nat) :
    (countdown n).map (1 + ·) ++ [0] = countdown (n + 1) := by
  induction n with
  | zero => rfl
  | succ n ih =>
    rw [countdown_succ, map_cons, cons_append, ih,
      countdown_succ (n + 1), Nat.add_comm 1]

/-- The ends of a repeated class: its run, and down to nothing. -/
theorem ends_many_one (p : α → Bool) (text : List α) :
    ends (many (one p)) text = countdown (run p text) := by
  have hloop : ∀ (fuel : Nat) (text : List α), text.length ≤ fuel →
      manyEnds (ends (one p)) fuel text = countdown (run p text) := by
    intro fuel
    induction fuel with
    | zero =>
      intro text hlen
      rw [length_eq_zero_iff.mp (by omega : text.length = 0)]
      rfl
    | succ fuel ih =>
      intro text hlen
      cases text with
      | nil => rfl
      | cons a rest =>
        rw [manyEnds, run_cons]
        cases hp : p a with
        | false => simp [ends, hp, countdown]
        | true =>
          rw [length_cons] at hlen
          have hround : ends (one p) (a :: rest) = [1] := by
            simp [ends, hp]
          rw [hround, if_pos rfl]
          simp only [flatMap_cons, flatMap_nil,
            append_nil, drop_succ_cons, drop_zero]
          rw [if_neg Nat.one_ne_zero, ih rest (by omega), countdown_succ_map]
  exact hloop text.length text (Nat.le_refl _)

/-- A repeated class, once at least: its run, and down to one. -/
theorem ends_plus_one (p : α → Bool) (text : List α) :
    ends (plus (one p)) text
      = if 0 < run p text
        then (countdown (run p text - 1)).map (· + 1) else [] := by
  unfold plus
  rw [ends]
  cases text with
  | nil => rfl
  | cons a rest =>
    rw [run_cons]
    cases hp : p a with
    | false => simp [ends, hp]
    | true =>
      have hround : ends (one p) (a :: rest) = [1] := by
        simp [ends, hp]
      rw [hround, if_pos rfl, if_pos (Nat.succ_pos _)]
      simp only [flatMap_cons, flatMap_nil, append_nil,
        drop_succ_cons, drop_zero, ends_many_one,
        Nat.add_sub_cancel]
      refine map_congr_left fun n _ => Nat.add_comm 1 n

/-- Going on after a repetition: the longest run from which it works. -/
theorem findSome_countdown {β : Type} {f : Nat → Option β} {w n : Nat}
    (hn : n ≤ w) {b : β} (hsome : f n = some b)
    (hnone : ∀ m, n < m → m ≤ w → f m = none) :
    (countdown w).findSome? f = some b := by
  induction w with
  | zero =>
    have hzero : n = 0 := by omega
    rw [hzero] at hsome
    simp [countdown, hsome]
  | succ w ih =>
    rw [countdown_succ, findSome?_cons]
    rcases Nat.lt_or_ge w n with hlt | hge
    · have heq : n = w + 1 := by omega
      rw [← heq, hsome]
    · rw [hnone (w + 1) (by omega) (Nat.le_refl _)]
      exact ih hge fun m hm hle => hnone m hm (by omega)

theorem findSome_countdown_none {β : Type} {f : Nat → Option β} {w : Nat}
    (hnone : ∀ m, m ≤ w → f m = none) :
    (countdown w).findSome? f = none := by
  rw [findSome?_eq_none_iff]
  intro m hm
  unfold countdown at hm
  rw [mem_reverse, mem_range] at hm
  exact hnone m (by omega)

/-- The whole run. -/
theorem first_plus_one (p : α → Bool) (text : List α) :
    first (plus (one p)) text
      = if 0 < run p text then some (run p text) else none := by
  unfold first
  rw [ends_plus_one]
  split
  · next hpos =>
    obtain ⟨n, hn⟩ : ∃ n, run p text = n + 1 := ⟨_, (by omega :
      run p text = run p text - 1 + 1)⟩
    rw [hn, Nat.add_sub_cancel]
    cases n with
    | zero => rfl
    | succ n => rw [countdown_succ]; rfl
  · rfl

/-- The whole run, which may be none. -/
theorem first_many_one (p : α → Bool) (text : List α) :
    first (many (one p)) text = some (run p text) := by
  unfold first
  rw [ends_many_one]
  cases run p text with
  | zero => rfl
  | succ n => rw [countdown_succ]; rfl

/-- An optional class is taken where it is there and the rest goes on,
else left. -/
theorem first_opt_one_seq (p : α → Bool) (s : Regex α) (a : α) (rest : List α) :
    first (seq (opt (one p)) s) (a :: rest)
      = (if p a then (first s rest).map (1 + ·) else none).or
        (first s (a :: rest)) := by
  rw [first_seq]
  unfold opt
  cases hp : p a with
  | false =>
    simp [ends, hp]
  | true =>
    simp only [ends, hp, if_true, cons_append, nil_append,
      findSome?_cons, findSome?_nil, drop_succ_cons,
      drop_zero]
    cases first s rest with
    | some n => rfl
    | none =>
      cases first s (a :: rest) with
      | some n => simp
      | none => rfl

-- ============ the search

/-- Where an expression matches at the front, the leftmost match is
there. -/
theorem search_of_first {r : Regex α} {a : α} {rest : List α} {n : Nat}
    (h : first r (a :: rest) = some n) :
    search r (a :: rest) = some (0, n) := by
  rw [search, h]

end Regex

end Ginfer.Lib
