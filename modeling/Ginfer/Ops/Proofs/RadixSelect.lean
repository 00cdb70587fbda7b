/-
The key a radix selection cuts at.

`atLeast keys v` counts the keys from `v` on that are not zero. Before the
pass at `shift` the prefix `p` has `cap` keys from itself on and fewer
from the next prefix on; a pass finds the digit where that happens one
byte finer (`scanDigits_some`). When there are fewer than `cap` keys no
pass finds a digit, and the threshold stays zero: then every key passes,
the padding too.
-/
import Ginfer.Ops.CandidateHierarchy
import Mathlib.Data.Nat.Bitwise

namespace Ginfer.Ops.Candidates

open List

variable {keys : List Nat} {cap : Nat}

/-- The keys from `v` on, padding aside. -/
def atLeast (keys : List Nat) (v : Nat) : Nat :=
  keys.countP fun key => key ≠ 0 ∧ v ≤ key

theorem atLeast_split (keys : List Nat) {v w : Nat} (h : v ≤ w) :
    atLeast keys v = atLeast keys w
      + keys.countP fun key => key ≠ 0 ∧ v ≤ key ∧ key < w := by
  induction keys with
  | nil => rfl
  | cons a l ih =>
    simp only [atLeast, countP_cons] at ih ⊢
    rw [ih]
    by_cases hz : a = 0
    · simp [hz]
    · by_cases hw : w ≤ a
      · simp [hz, hw, le_trans h hw, Nat.not_lt.2 hw]
        omega
      · simp [hz, hw, Nat.lt_of_not_le hw]
        omega

theorem atLeast_anti (keys : List Nat) {v w : Nat} (h : v ≤ w) :
    atLeast keys w ≤ atLeast keys v := by
  rw [atLeast_split keys h]
  exact Nat.le_add_right ..

theorem atLeast_full (h : ∀ key ∈ keys, key ≠ 0) : atLeast keys 0 = keys.length :=
  countP_eq_length.2 fun key hkey => decide_eq_true ⟨h key hkey, key.zero_le⟩

-- ============ a pass

section

variable {histogram G : Nat → Nat} (hG : ∀ d, G (d + 1) ≤ G d)
include hG

theorem scanDigits_some {n : Nat} (hh : ∀ d < n, histogram d = G d - G (d + 1))
    (hend : G n < cap) (hall : cap ≤ G 0) :
    ∃ d, d < n ∧ scanDigits histogram n (cap - G n) = some (d, cap - G (d + 1))
      ∧ cap ≤ G d ∧ G (d + 1) < cap := by
  induction n with
  | zero => omega
  | succ n ih =>
    have hn := hh n n.lt_succ_self
    have hmono := hG n
    rw [scanDigits]
    by_cases hlt : G n < cap
    · obtain ⟨d, hd, hscan, hrest⟩ := ih (fun d hd => hh d (by omega)) hlt
      refine ⟨d, by omega, ?_, hrest⟩
      rw [if_pos (by omega), ← hscan]
      exact congrArg _ (by omega)
    · refine ⟨n, n.lt_succ_self, ?_, by omega, hend⟩
      rw [if_neg (by omega)]

theorem scanDigits_none {n rank : Nat} (hh : ∀ d < n, histogram d = G d - G (d + 1))
    (hrank : G 0 - G n < rank) : scanDigits histogram n rank = none := by
  induction n generalizing rank with
  | zero => rfl
  | succ n ih =>
    have hn := hh n n.lt_succ_self
    have hmono := hG n
    have hzero : G n ≤ G 0 := antitone_nat_of_succ_le hG n.zero_le
    rw [scanDigits, if_pos (by omega)]
    exact ih (fun d hd => hh d (by omega)) (by omega)

end

theorem and_mask {key m : Nat} (hkey : key < 2 ^ 64) (hm : m ≤ 64) :
    key &&& (2 ^ 64 - 2 ^ m) = key / 2 ^ m * 2 ^ m := by
  have hmask : 2 ^ 64 - 2 ^ m = (2 ^ (64 - m) - 1) <<< m := by
    rw [Nat.shiftLeft_eq, Nat.sub_mul, ← pow_add, Nat.sub_add_cancel hm, one_mul]
  rw [hmask, ← Nat.shiftRight_eq_div_pow, ← Nat.shiftLeft_eq]
  refine Nat.eq_of_testBit_eq fun i => ?_
  rw [Nat.testBit_and, Nat.testBit_shiftLeft, Nat.testBit_shiftLeft,
    Nat.testBit_two_pow_sub_one, Nat.testBit_shiftRight]
  by_cases hi : m ≤ i
  · rw [Nat.add_sub_cancel' hi]
    by_cases hlt : i < 64
    · simp [hi, show i - m < 64 - m by omega]
    · simp [Nat.testBit_lt_two_pow (lt_of_lt_of_le hkey
        (Nat.pow_le_pow_right (by decide) (Nat.not_lt.1 hlt)))]
  · simp [hi]

/-- A bucket of the histogram holds the keys between two prefixes. -/
theorem bucket_eq (hkeys : ∀ key ∈ keys, key < 2 ^ 64) {p shift digit : Nat}
    (hshift : shift + 8 ≤ 64) :
    (keys.countP fun key => key ≠ 0 ∧ key &&& (2 ^ 64 - 2 ^ (shift + 8)) = p * 2 ^ (shift + 8)
        ∧ (key >>> shift) &&& 0xff = digit)
      = if digit < 256 then atLeast keys ((p * 256 + digit) * 2 ^ shift)
        - atLeast keys ((p * 256 + (digit + 1)) * 2 ^ shift) else 0 := by
  have hbyte (key : Nat) : (key >>> shift) &&& 0xff = key / 2 ^ shift % 256 := by
    rw [Nat.shiftRight_eq_div_pow]
    exact Nat.and_two_pow_sub_one_eq_mod _ 8
  have hpos : 0 < 2 ^ shift := Nat.two_pow_pos shift
  split
  case isFalse hdigit =>
    rw [countP_eq_zero]
    intro key _
    simp only [hbyte, decide_eq_true_eq]
    omega
  case isTrue hdigit =>
    rw [atLeast_split keys (Nat.mul_le_mul_right (2 ^ shift) (Nat.le_succ (p * 256 + digit))),
      ← add_assoc, Nat.succ_eq_add_one, Nat.add_sub_cancel_left]
    refine countP_congr fun key hkey => ?_
    have hdiv : key / 2 ^ (shift + 8) = key / 2 ^ shift / 256 := by
      rw [Nat.pow_add, Nat.div_div_eq_div_mul]
    have hpow : 0 < 2 ^ (shift + 8) := Nat.two_pow_pos _
    have hprefix : key &&& (2 ^ 64 - 2 ^ (shift + 8)) = p * 2 ^ (shift + 8)
        ↔ key / 2 ^ shift / 256 = p := by
      rw [and_mask (hkeys key hkey) hshift, hdiv]
      exact ⟨Nat.eq_of_mul_eq_mul_right hpow, fun h => by rw [h]⟩
    have hlow := Nat.le_div_iff_mul_le hpos (x := p * 256 + digit) (y := key)
    have hhigh := Nat.div_lt_iff_lt_mul hpos (x := key) (y := p * 256 + digit + 1)
    simp only [decide_eq_true_eq, hprefix, hbyte, ← hlow, ← hhigh]
    omega

-- ============ the threshold

/-- Before the pass at `shift`: the mask, and either the prefix that cuts
at `cap` or too few keys. -/
structure Cutting (keys : List Nat) (cap bits : Nat) (s : Radix) : Prop where
  mask : s.prefixMask = 2 ^ 64 - 2 ^ bits
  cut : ∃ p, s.prefixBits = p * 2 ^ bits ∧
    if cap ≤ atLeast keys 0 then
      cap ≤ atLeast keys (p * 2 ^ bits) ∧ atLeast keys ((p + 1) * 2 ^ bits) < cap
        ∧ s.rank = cap - atLeast keys ((p + 1) * 2 ^ bits)
    else p = 0 ∧ s.rank = cap

theorem radixPass_cutting (hkeys : ∀ key ∈ keys, key < 2 ^ 64) {shift : Nat} {s : Radix}
    (hshift : shift + 8 ≤ 64)
    (hmask : (2 ^ 64 - 2 ^ (shift + 8)) ||| 0xff <<< shift = 2 ^ 64 - 2 ^ shift)
    (h : Cutting keys cap (shift + 8) s) :
    Cutting keys cap shift (radixPass keys s shift) := by
  obtain ⟨p, hp, hcut⟩ := h.cut
  let G d := atLeast keys ((p * 256 + d) * 2 ^ shift)
  have hG (d : Nat) : G (d + 1) ≤ G d :=
    atLeast_anti keys (Nat.mul_le_mul_right _ (Nat.le_succ (p * 256 + d)))
  have hpow : (2 : Nat) ^ (shift + 8) = 256 * 2 ^ shift := by
    rw [Nat.pow_add, Nat.mul_comm]
  have hG0 : G 0 = atLeast keys (p * 2 ^ (shift + 8)) := by
    rw [hpow, ← mul_assoc, ← add_zero (p * 256)]
  have hG256 : G 256 = atLeast keys ((p + 1) * 2 ^ (shift + 8)) := by
    rw [hpow, ← mul_assoc, Nat.succ_mul]
  have hbuckets : ∀ d < 256, (keys.countP fun key => key ≠ 0
      ∧ key &&& s.prefixMask = s.prefixBits ∧ (key >>> shift) &&& 0xff = d)
        = G d - G (d + 1) := by
    intro d hd
    rw [h.mask, hp, bucket_eq hkeys hshift, if_pos hd]
  by_cases hall : cap ≤ atLeast keys 0
  · rw [if_pos hall, ← hG0, ← hG256] at hcut
    obtain ⟨d, hd, hscan, hfrom, hnext⟩ := scanDigits_some hG hbuckets hcut.2.1 hcut.1
    rw [← hcut.2.2] at hscan
    have hor : s.prefixBits ||| d <<< shift = (p * 256 + d) * 2 ^ shift := by
      have hlt : d <<< shift < 2 ^ (shift + 8) := by
        rw [Nat.shiftLeft_eq, hpow]
        exact Nat.mul_lt_mul_of_pos_right hd (Nat.two_pow_pos shift)
      rw [hp, ← Nat.shiftLeft_eq, ← Nat.shiftLeft_add_eq_or_of_lt hlt, Nat.shiftLeft_eq,
        Nat.shiftLeft_eq, hpow, add_mul, mul_assoc]
    simp only [radixPass, hscan]
    refine ⟨by rw [h.mask, hmask], p * 256 + d, hor, ?_⟩
    rw [if_pos hall, add_assoc]
    exact ⟨hfrom, hnext, rfl⟩
  · rw [if_neg hall] at hcut
    have hrank : G 0 - G 256 < s.rank := by
      have := atLeast_anti keys (Nat.zero_le (p * 2 ^ (shift + 8)))
      omega
    have hscan := scanDigits_none hG hbuckets hrank
    have hzero : s.prefixBits = 0 := by rw [hp, hcut.1, zero_mul]
    simp only [radixPass, hscan]
    refine ⟨by rw [h.mask, hmask], 0, by rw [hzero, zero_mul], ?_⟩
    rw [if_neg hall]
    exact ⟨rfl, hcut.2⟩

/-- The threshold has `cap` keys from itself on and fewer behind it; with
fewer than `cap` keys it is zero. -/
theorem radixThreshold_spec (hkeys : ∀ key ∈ keys, key < 2 ^ 64) (hcap : 0 < cap) :
    if cap ≤ atLeast keys 0 then
      cap ≤ atLeast keys (radixThreshold keys cap)
        ∧ atLeast keys (radixThreshold keys cap + 1) < cap
    else radixThreshold keys cap = 0 := by
  have hnone : atLeast keys (2 ^ 64) = 0 := by
    rw [atLeast, countP_eq_zero]
    intro key hkey
    have := hkeys key hkey
    simp only [decide_eq_true_eq]
    omega
  have hstart : Cutting keys cap 64 ⟨0, cap, 0⟩ := by
    refine ⟨rfl, 0, (zero_mul _).symm, ?_⟩
    rw [zero_mul, zero_add, one_mul, hnone]
    split
    · exact ⟨‹_›, hcap, rfl⟩
    · exact ⟨rfl, rfl⟩
  have hrun : Cutting keys cap 0
      ([56, 48, 40, 32, 24, 16, 8, 0].foldl (radixPass keys) ⟨0, cap, 0⟩) := by
    simp only [foldl_cons, foldl_nil]
    iterate 8 refine radixPass_cutting hkeys (by decide) (by decide) ?_
    exact hstart
  obtain ⟨p, hp, hcut⟩ := hrun.cut
  rw [radixThreshold, hp, pow_zero, mul_one]
  rw [pow_zero, mul_one, mul_one] at hcut
  split at hcut
  · rw [if_pos ‹_›]
    exact ⟨hcut.1, hcut.2.1⟩
  · rw [if_neg ‹_›]
    exact hcut.1

end Ginfer.Ops.Candidates
