/-
Binary16 numbers, as far as subtraction needs them.

A finite binary16 number is a whole number of units of 2⁻²⁴, so sums and
differences are exact integers before they are rounded (`units`).
`roundUnits` rounds to eleven significant bits, to nearest and to even
on a tie; a number that has no more than eleven is not changed
(`roundUnits_eq`). Infinities, not-a-numbers and overflow are left out.
-/
import Mathlib.Data.UInt
import Mathlib.Tactic.Ring

namespace Ginfer.Lib.Binary16

/-- The number of a finite bit pattern, in units of 2⁻²⁴. -/
def units (bits : Nat) : Int :=
  let exponent : Nat := bits / 2 ^ 10 % 2 ^ 5
  let fraction : Nat := bits % 2 ^ 10
  let magnitude : Nat :=
    if exponent = 0 then fraction
    else (2 ^ 10 + fraction) * 2 ^ (exponent - 1)
  if bits / 2 ^ 15 % 2 = 1 then -(magnitude : Int) else magnitude

/-- The multiple of the last place nearest to a magnitude. -/
def roundMagnitude (n : Nat) : Nat :=
  let place := 2 ^ (n.log2 - 10)
  let below := n / place
  let rest := n % place
  let up := place < 2 * rest ∨ (2 * rest = place ∧ below % 2 = 1)
  (if up then below + 1 else below) * place

def roundUnits (x : Int) : Int :=
  if x < 0 then -roundMagnitude x.natAbs else roundMagnitude x.natAbs

/-- Subtraction. -/
def sub (a b : Nat) : Int := roundUnits (units a - units b)

-- ============ exactness

theorem roundMagnitude_eq {m e : Nat} (hm : m < 2 ^ 11) :
    roundMagnitude (m * 2 ^ e) = m * 2 ^ e := by
  by_cases hzero : m * 2 ^ e = 0
  · rw [hzero]
    rfl
  -- The last place divides the number, so nothing is left to round.
  have hbound : m * 2 ^ e < 2 ^ (11 + e) := by
    rw [pow_add]
    exact Nat.mul_lt_mul_of_pos_right hm (Nat.two_pow_pos e)
  have hlog : (m * 2 ^ e).log2 < 11 + e :=
    (Nat.log2_lt hzero).mpr hbound
  have hdvd : 2 ^ ((m * 2 ^ e).log2 - 10) ∣ m * 2 ^ e :=
    Nat.dvd_mul_left_of_dvd (Nat.pow_dvd_pow 2 (by omega)) m
  have hplace : 0 < 2 ^ ((m * 2 ^ e).log2 - 10) := Nat.two_pow_pos _
  rw [roundMagnitude, Nat.mod_eq_zero_of_dvd hdvd, if_neg (by omega),
    Nat.div_mul_cancel hdvd]

/-- What has at most eleven significant bits stays as it is. -/
theorem roundUnits_eq {m : Int} {e : Nat} (hm : m.natAbs < 2 ^ 11) :
    roundUnits (m * 2 ^ e) = m * 2 ^ e := by
  have habs : (m * 2 ^ e).natAbs = m.natAbs * 2 ^ e := by
    rw [Int.natAbs_mul, Int.natAbs_pow]
    rfl
  have hround := roundMagnitude_eq (e := e) hm
  rw [← habs] at hround
  rw [roundUnits, hround]
  split <;> omega

/-- With the exponent of 1024 the fraction counts whole numbers. -/
theorem units_whole {fraction : Nat} (h : fraction < 2 ^ 10) :
    units (0x6400 + fraction) = (1024 + fraction) * 2 ^ 24 := by
  have hexponent : (0x6400 + fraction) / 2 ^ 10 % 2 ^ 5 = 25 := by omega
  have hfraction : (0x6400 + fraction) % 2 ^ 10 = fraction := by omega
  have hsign : ¬ (0x6400 + fraction) / 2 ^ 15 % 2 = 1 := by omega
  rw [units, hexponent, hfraction, if_neg hsign, if_neg (by decide)]
  push_cast
  rfl

/-- The difference of two whole numbers from 1024 on is exact. -/
theorem sub_whole {a b : Nat} (ha : a < 2 ^ 10) (hb : b < 2 ^ 10) :
    sub (0x6400 + a) (0x6400 + b) = ((a : Int) - b) * 2 ^ 24 := by
  have hdiff : units (0x6400 + a) - units (0x6400 + b)
      = ((a : Int) - b) * 2 ^ 24 := by
    rw [units_whole ha, units_whole hb]
    ring
  rw [sub, hdiff, roundUnits_eq (by omega)]

end Ginfer.Lib.Binary16
