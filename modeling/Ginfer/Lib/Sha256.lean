/-
The secure hash standard: SHA-256 (FIPS 180-4), on messages of bits.

The text of the standard is followed: the functions (4.1.2), the constants
as the leading bits of the fractional parts of roots of primes (4.2.2,
5.3.3), the padding (5.1.1), the parsing into blocks of sixteen words
(5.2.1), the message schedule and the rounds (6.2.2). Bits are written
with the most significant first; `bits_append` and `number_bits` are how
numbers go into them and come back.
-/
import Mathlib.Data.UInt
import Mathlib.Tactic.Ring

namespace Ginfer.Lib.Sha256

open List

abbrev Word := BitVec 32

-- ============ bits

/-- The `n` low bits of a number, the most significant first. -/
def bits : Nat → Nat → List Bool
  | 0, _ => []
  | n + 1, x => bits n (x / 2) ++ [x % 2 == 1]

/-- The number a string of bits stands for. -/
def number (s : List Bool) : Nat := s.foldl (fun x b => 2 * x + b.toNat) 0

@[simp] theorem length_bits (n x : Nat) : (bits n x).length = n := by
  induction n generalizing x with
  | zero => rfl
  | succ n ih => rw [bits, length_append, ih, length_singleton]

theorem number_append_bits (s : List Bool) (n x : Nat) :
    number (s ++ bits n x) = number s * 2 ^ n + x % 2 ^ n := by
  induction n generalizing x with
  | zero => simp [bits, number, Nat.mod_one]
  | succ n ih =>
    have hbit : (x % 2 == 1).toNat = x % 2 := by
      rcases Nat.mod_two_eq_zero_or_one x with h | h <;> simp [h]
    have hsplit : x % 2 ^ (n + 1) = 2 * (x / 2 % 2 ^ n) + x % 2 := by
      rw [Nat.pow_succ', Nat.mod_mul]
      ring
    rw [bits, ← append_assoc, number, foldl_append, ← number, ih,
      foldl_cons, foldl_nil, hbit, hsplit, Nat.pow_succ]
    ring

theorem bits_append (m n x : Nat) :
    bits (m + n) x = bits m (x / 2 ^ n) ++ bits n x := by
  induction n generalizing x with
  | zero => simp [bits]
  | succ n ih =>
    rw [← Nat.add_assoc, bits, ih, bits, append_assoc,
      Nat.div_div_eq_div_mul, ← Nat.pow_succ']

theorem bits_mod (n x : Nat) : bits n (x % 2 ^ n) = bits n x := by
  induction n generalizing x with
  | zero => rfl
  | succ n ih =>
    have hdiv : x % 2 ^ (n + 1) / 2 = x / 2 % 2 ^ n := by
      rw [Nat.pow_succ', Nat.mod_mul_right_div_self]
    have hmod : x % 2 ^ (n + 1) % 2 = x % 2 :=
      Nat.mod_mod_of_dvd x ⟨2 ^ n, Nat.pow_succ'⟩
    rw [bits, bits, hdiv, ih, hmod]

-- ============ functions

def ch (x y z : Word) : Word := (x &&& y) ^^^ (~~~x &&& z)

def maj (x y z : Word) : Word := (x &&& y) ^^^ (x &&& z) ^^^ (y &&& z)

/-- `Σ₀`. -/
def bigSigma0 (x : Word) : Word :=
  x.rotateRight 2 ^^^ x.rotateRight 13 ^^^ x.rotateRight 22

/-- `Σ₁`. -/
def bigSigma1 (x : Word) : Word :=
  x.rotateRight 6 ^^^ x.rotateRight 11 ^^^ x.rotateRight 25

/-- `σ₀`. -/
def smallSigma0 (x : Word) : Word :=
  x.rotateRight 7 ^^^ x.rotateRight 18 ^^^ x >>> 3

/-- `σ₁`. -/
def smallSigma1 (x : Word) : Word :=
  x.rotateRight 17 ^^^ x.rotateRight 19 ^^^ x >>> 10

-- ============ constants

/-- The largest number below `root + 2 ^ n` whose power is at most `x`,
bit by bit. -/
def rootFrom (power x : Nat) : Nat → Nat → Nat
  | 0, root => root
  | n + 1, root =>
    if (root + 2 ^ n) ^ power ≤ x then rootFrom power x n (root + 2 ^ n)
    else rootFrom power x n root

variable {n : Nat}

/-- It is the integer root. -/
theorem rootFrom_spec {power x root : Nat} (hlow : root ^ power ≤ x)
    (hhigh : x < (root + 2 ^ n) ^ power) :
    rootFrom power x n root ^ power ≤ x ∧
      x < (rootFrom power x n root + 1) ^ power := by
  induction n generalizing root with
  | zero => exact ⟨hlow, hhigh⟩
  | succ n ih =>
    unfold rootFrom
    by_cases h : (root + 2 ^ n) ^ power ≤ x
    · rw [if_pos h]
      refine ih h ?_
      rwa [Nat.add_assoc, ← Nat.mul_two, ← Nat.pow_succ]
    · rw [if_neg h]
      exact ih hlow (Nat.lt_of_not_le h)

/-- The first 32 bits of the fractional part of a root of a prime. -/
def rootFraction (power prime : Nat) : Word :=
  BitVec.ofNat 32 (rootFrom power (prime * 2 ^ (32 * power)) 40 0)

/-- The first 64 primes: what no prime before it divides. -/
def primes : List Nat :=
  (range' 2 310).foldl
    (fun found p => if found.all (p % · ≠ 0) then found ++ [p] else found) []

/-- `K`. -/
def constants : List Word := primes.map (rootFraction 3)

/-- `H⁽⁰⁾`. -/
def initial : List Word := (primes.take 8).map (rootFraction 2)

-- ============ preprocessing

/-- The number of zeros of the padding. -/
def zeros (l : Nat) : Nat := (959 - l % 512) % 512

/-- It is the least that solves `l + 1 + k ≡ 448 (mod 512)`. -/
theorem zeros_least (l : Nat) :
    (l + 1 + zeros l) % 512 = 448 ∧
      ∀ k, (l + 1 + k) % 512 = 448 → zeros l ≤ k := by
  unfold zeros
  exact ⟨by omega, fun k hk => by omega⟩

/-- The padded message: a one, zeros, and the length in 64 bits. -/
def pad (message : List Bool) : List Bool :=
  message ++ [true] ++ replicate (zeros message.length) false
    ++ bits 64 message.length

/-- The pieces of `n` of a string. -/
def pieces {α : Type} (n : Nat) (s : List α) : List (List α) :=
  if 0 < n ∧ n ≤ s.length then s.take n :: pieces n (s.drop n) else []
termination_by s.length
decreasing_by
  rw [length_drop]
  omega

variable {α : Type}

theorem pieces_append (hn : 0 < n) {first : List α}
    (hfirst : first.length = n) (rest : List α) :
    pieces n (first ++ rest) = first :: pieces n rest := by
  rw [pieces, if_pos ⟨hn, by rw [length_append]; omega⟩, ← hfirst,
    take_left, drop_left]

theorem pieces_short {s : List α} (h : s.length < n) : pieces n s = [] := by
  rw [pieces, if_neg (by omega)]

theorem length_of_mem_pieces {s piece : List α}
    (h : piece ∈ pieces n s) : piece.length = n := by
  rw [pieces] at h
  by_cases hn : 0 < n ∧ n ≤ s.length
  · rw [if_pos hn] at h
    rcases mem_cons.mp h with rfl | hrest
    · rw [length_take]
      omega
    · exact length_of_mem_pieces hrest
  · rw [if_neg hn] at h
    cases h
termination_by s.length
decreasing_by
  rw [length_drop]
  omega

/-- A whole number of pieces, and what comes after them. -/
theorem pieces_whole_append {k : Nat} (hn : 0 < n)
    {whole : List α} (hwhole : whole.length = n * k) (rest : List α) :
    pieces n (whole ++ rest) = pieces n whole ++ pieces n rest := by
  induction k generalizing whole with
  | zero =>
    obtain rfl := length_eq_zero_iff.mp hwhole
    rw [nil_append, pieces_short (s := ([] : List α)) hn, nil_append]
  | succ k ih =>
    rw [Nat.mul_succ] at hwhole
    have hfirst : (whole.take n).length = n := by
      rw [length_take]
      omega
    rw [← take_append_drop n whole, append_assoc,
      pieces_append hn hfirst, pieces_append hn hfirst, cons_append,
      ih (by rw [length_drop]; omega)]

-- ============ computation

/-- `M_t⁽ⁱ⁾`. -/
def blockWord (block : List Bool) (t : Nat) : Word :=
  BitVec.ofNat 32 (number ((block.drop (32 * t)).take 32))

/-- `W_t`. -/
def schedule (block : List Bool) (t : Nat) : Word :=
  if 16 ≤ t then
    smallSigma1 (schedule block (t - 2)) + schedule block (t - 7)
      + smallSigma0 (schedule block (t - 15)) + schedule block (t - 16)
  else blockWord block t

/-- The working variables. -/
structure Working where
  a : Word
  b : Word
  c : Word
  d : Word
  e : Word
  f : Word
  g : Word
  h : Word

/-- One round, with `K_t` and `W_t`. -/
def round (v : Working) (k w : Word) : Working :=
  let t1 := v.h + bigSigma1 v.e + ch v.e v.f v.g + k + w
  let t2 := bigSigma0 v.a + maj v.a v.b v.c
  ⟨t1 + t2, v.a, v.b, v.c, v.d + t1, v.e, v.f, v.g⟩

/-- The next hash value. -/
def compress (hash : List Word) (block : List Bool) : List Word :=
  let v := (range 64).foldl
    (fun v t => round v (constants.getD t 0) (schedule block t))
    ⟨hash.getD 0 0, hash.getD 1 0, hash.getD 2 0, hash.getD 3 0,
      hash.getD 4 0, hash.getD 5 0, hash.getD 6 0, hash.getD 7 0⟩
  zipWith (· + ·) [v.a, v.b, v.c, v.d, v.e, v.f, v.g, v.h] hash

/-- The digest of a message. -/
def digest (message : List Bool) : List Bool :=
  ((pieces 512 (pad message)).foldl compress initial).flatMap
    fun word => bits 32 word.toNat

end Ginfer.Lib.Sha256
