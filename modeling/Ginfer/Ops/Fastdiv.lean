/-
Division by a multiplier and a shift
(ops/linear_attention/gated_delta_net/common.cuh), in the words the code
computes with.

`init_fastdiv_values` runs on the host and `fastdiv` in every warp of the
recurrence. The shift is the least whose power of two reaches the divisor,
and with the implicit bit of `hi + n` the multiplier is the rounded-up
reciprocal of the divisor at that scale (`reciprocal_eq`): its error is
less than the divisor, so a dividend below 2³¹ cannot see it
(`mul_reciprocal_div`).
-/
import Mathlib.Data.UInt
import Mathlib.Tactic.Ring

namespace Ginfer.Ops.Fastdiv

/-- `uint3`. -/
structure Uint3 where
  x : UInt32
  y : UInt32
  z : UInt32

/-- The search loop of `init_fastdiv_values`, from `L` on. -/
def searchShift (d : UInt32) (L : Nat) : Nat :=
  if L < 32 ∧ (1 : UInt32) <<< UInt32.ofNat L < d then searchShift d (L + 1)
  else L
termination_by 32 - L

/-- `init_fastdiv_values`; an invalid divisor aborts. -/
def initFastdivValues (d64 : UInt64) : Option Uint3 :=
  if d64 = 0 ∨ 0xffffffff < d64 then none
  else
    let d := d64.toUInt32
    let L := searchShift d 0
    let mp := (((1 : UInt64) <<< 32) * ((1 : UInt64) <<< UInt64.ofNat L - d64)
      / d64 + 1).toUInt32
    some ⟨mp, UInt32.ofNat L, d⟩

/-- `__umulhi`. -/
def umulhi (a b : UInt32) : UInt32 :=
  ((a.toUInt64 * b.toUInt64) >>> 32).toUInt32

/-- `fastdiv`. -/
def fastdiv (n : UInt32) (values : Uint3) : UInt32 :=
  (umulhi n values.x + n) >>> values.y

-- ============ the shift

/-- A shift the loop can leave at. -/
structure IsShift (d L : Nat) : Prop where
  reaches : d ≤ 2 ^ L
  least : ∀ l < L, 2 ^ l < d

theorem IsShift.lt_two_mul {d L : Nat} (h : IsShift d L) (hd : 0 < d) :
    2 ^ L < 2 * d := by
  cases L with
  | zero =>
    have hone : 2 ^ 0 = 1 := rfl
    omega
  | succ l =>
    have hl := h.least l (Nat.lt_succ_self l)
    rw [Nat.pow_succ]
    omega

theorem shl_one_toNat {L : Nat} (hL : L < 32) :
    ((1 : UInt32) <<< UInt32.ofNat L).toNat = 2 ^ L := by
  have hpow : 2 ^ L < 2 ^ 32 := Nat.pow_lt_pow_right (by decide) hL
  rw [UInt32.toNat_shiftLeft, UInt32.toNat_ofNat_of_lt' (by
    show L < 2 ^ 32
    omega), Nat.mod_eq_of_lt hL, UInt32.toNat_one, Nat.one_shiftLeft,
    Nat.mod_eq_of_lt hpow]

/-- From below the least shift the loop climbs to it. -/
theorem searchShift_isShift {d : UInt32} (hd : d.toNat ≤ 2 ^ 31) {L : Nat}
    (hbelow : ∀ l < L, 2 ^ l < d.toNat) : IsShift d.toNat (searchShift d L) := by
  have hL : L ≤ 31 := by
    by_contra hover
    have h := hbelow 31 (by omega)
    omega
  have hshift := shl_one_toNat (L := L) (by omega)
  rw [searchShift]
  by_cases hstop : d.toNat ≤ 2 ^ L
  · rw [if_neg (by
      rintro ⟨-, hlt⟩
      rw [UInt32.lt_iff_toNat_lt, hshift] at hlt
      omega)]
    exact ⟨hstop, hbelow⟩
  · rw [if_pos ⟨by omega, by
      rw [UInt32.lt_iff_toNat_lt, hshift]
      omega⟩]
    refine searchShift_isShift hd fun l hl => ?_
    rcases Nat.lt_succ_iff_lt_or_eq.mp hl with hlt | rfl
    · exact hbelow l hlt
    · omega
termination_by 32 - L

theorem IsShift.le_of_le {d L : Nat} (h : IsShift d L) (hd : d ≤ 2 ^ 31) :
    L ≤ 31 := by
  by_contra hover
  have hl := h.least 31 (by omega)
  omega

-- ============ the reciprocal

/-- The multiplier with the bit above it: the reciprocal at scale
`2³² · 2^L`, rounded up. -/
theorem reciprocal_eq {d P : Nat} (hd : 0 < d) (hP : d ≤ P) :
    2 ^ 32 * (P - d) / d + 1 + 2 ^ 32 = 2 ^ 32 * P / d + 1 := by
  have hsplit : 2 ^ 32 * P = 2 ^ 32 * (P - d) + 2 ^ 32 * d := by
    rw [← Nat.mul_add, Nat.sub_add_cancel hP]
  rw [hsplit, Nat.add_mul_div_right _ _ hd]
  omega

/-- A quotient by a rounded-up reciprocal, while the dividend times the
divisor is below the scale. -/
theorem mul_reciprocal_div {n d N : Nat} (hd : 0 < d) (h : n * d < N) :
    n * (N / d + 1) / N = n / d := by
  have hlow : N < d * (N / d + 1) := Nat.lt_mul_div_succ N hd
  have hhigh : d * (N / d) ≤ N := Nat.mul_div_le N d
  refine Nat.div_eq_of_lt_le ?_ ?_
  · calc n / d * N ≤ n / d * (d * (N / d + 1)) :=
          Nat.mul_le_mul_left _ hlow.le
      _ = n / d * d * (N / d + 1) := (Nat.mul_assoc _ _ _).symm
      _ ≤ n * (N / d + 1) :=
          Nat.mul_le_mul_right _ (Nat.div_mul_le_self n d)
  · -- Both sides times the divisor: the error is `n * d`, less than `N`.
    refine Nat.lt_of_mul_lt_mul_left (a := d) ?_
    calc d * (n * (N / d + 1)) = n * (d * (N / d)) + n * d := by ring
      _ < n * N + N :=
          Nat.add_lt_add_of_le_of_lt (Nat.mul_le_mul_left n hhigh) h
      _ = (n + 1) * N := by ring
      _ ≤ d * (n / d + 1) * N :=
          Nat.mul_le_mul_right N (Nat.lt_mul_div_succ n hd)
      _ = d * ((n / d + 1) * N) := Nat.mul_assoc _ _ _

-- ============ the words

section

variable {d L : Nat} (h : IsShift d L) (hd : 0 < d) (hmax : d ≤ 2 ^ 31)

include h hd hmax

/-- The multiplier of the code fits its 32 bits. -/
theorem multiplier_lt : 2 ^ 32 * (2 ^ L - d) / d + 1 < 2 ^ 32 := by
  have htwice := h.lt_two_mul hd
  by_cases hone : d = 1
  · have hzero : 2 ^ L - d = 0 := by omega
    rw [hzero, Nat.mul_zero, Nat.zero_div]
    decide
  · -- An even power is at most `2 * d - 2`.
    have hL : L ≠ 0 := by
      rintro rfl
      have hreaches := h.reaches
      rw [Nat.pow_zero] at hreaches
      omega
    obtain ⟨l, rfl⟩ := Nat.exists_eq_add_one_of_ne_zero hL
    have hl := h.least l (Nat.lt_succ_self l)
    have hgap : 2 ^ (l + 1) - d ≤ d - 2 := by
      rw [Nat.pow_succ]
      omega
    have hlt : 2 ^ 32 * (2 ^ (l + 1) - d) / d < 2 ^ 32 - 1 := by
      rw [Nat.div_lt_iff_lt_mul hd]
      calc 2 ^ 32 * (2 ^ (l + 1) - d) ≤ 2 ^ 32 * (d - 2) :=
            Nat.mul_le_mul_left _ hgap
        _ < (2 ^ 32 - 1) * d := by omega
    omega

/-- The 64-bit product of `init_fastdiv_values` does not wrap. -/
theorem product_lt : 2 ^ 32 * (2 ^ L - d) < 2 ^ 64 := by
  have htwice := h.lt_two_mul hd
  omega

end

/-- What `init_fastdiv_values` computes. -/
theorem initFastdivValues_eq {d : UInt64} (hd : 1 ≤ d.toNat)
    (hmax : d.toNat ≤ 2 ^ 31) :
    ∃ values, initFastdivValues d = some values ∧ IsShift d.toNat values.y.toNat ∧
      values.x.toNat = 2 ^ 32 * (2 ^ values.y.toNat - d.toNat) / d.toNat + 1
      := by
  have hword : d.toUInt32.toNat = d.toNat := by
    rw [UInt64.toNat_toUInt32, Nat.mod_eq_of_lt (by omega)]
  have hshift : IsShift d.toNat (searchShift d.toUInt32 0) := by
    rw [← hword]
    exact searchShift_isShift (by omega) (fun l hl => absurd hl (by omega))
  have hL := hshift.le_of_le hmax
  have hy : (UInt32.ofNat (searchShift d.toUInt32 0)).toNat
      = searchShift d.toUInt32 0 :=
    UInt32.toNat_ofNat_of_lt' (by
      show _ < 2 ^ 32
      omega)
  have hpow : 2 ^ searchShift d.toUInt32 0 < 2 ^ 64 :=
    Nat.pow_lt_pow_right (by decide) (by omega)
  have hpower : ((1 : UInt64) <<< UInt64.ofNat (searchShift d.toUInt32 0)).toNat
      = 2 ^ searchShift d.toUInt32 0 := by
    rw [UInt64.toNat_shiftLeft, UInt64.toNat_ofNat_of_lt' (by
      show _ < 2 ^ 64
      omega), Nat.mod_eq_of_lt (b := 64) (by omega), UInt64.toNat_one,
      Nat.one_shiftLeft, Nat.mod_eq_of_lt hpow]
  have hsub : ((1 : UInt64) <<< UInt64.ofNat (searchShift d.toUInt32 0) - d).toNat
      = 2 ^ searchShift d.toUInt32 0 - d.toNat := by
    rw [UInt64.toNat_sub_of_le _ _ (by
      rw [UInt64.le_iff_toNat_le, hpower]
      exact hshift.reaches), hpower]
  have hproduct := product_lt hshift hd hmax
  have hfits := multiplier_lt hshift hd hmax
  refine ⟨_, if_neg ?_, ?_, ?_⟩
  · rintro (hzero | hover)
    · rw [hzero] at hd
      exact absurd hd (by decide)
    · rw [UInt64.lt_iff_toNat_lt] at hover
      have hlit : (0xffffffff : UInt64).toNat = 2 ^ 32 - 1 := rfl
      omega
  · dsimp only
    rw [hy]
    exact hshift
  · dsimp only
    have hone : ((1 : UInt64) <<< 32).toNat = 2 ^ 32 := rfl
    rw [hy, UInt64.toNat_toUInt32, UInt64.toNat_add, UInt64.toNat_div,
      UInt64.toNat_mul, hone, hsub, Nat.mod_eq_of_lt hproduct,
      UInt64.toNat_one, Nat.mod_eq_of_lt (a := _ + 1) (by omega),
      Nat.mod_eq_of_lt hfits]

theorem umulhi_toNat (a b : UInt32) :
    (umulhi a b).toNat = a.toNat * b.toNat / 2 ^ 32 := by
  have ha := a.toNat_lt
  have hb := b.toNat_lt
  have hproduct : a.toNat * b.toNat < 2 ^ 64 :=
    calc a.toNat * b.toNat < 2 ^ 32 * 2 ^ 32 := Nat.mul_lt_mul'' ha hb
      _ = 2 ^ 64 := by decide
  rw [umulhi, UInt64.toNat_toUInt32, UInt64.toNat_shiftRight,
    UInt64.toNat_mul, UInt32.toNat_toUInt64, UInt32.toNat_toUInt64,
    Nat.mod_eq_of_lt hproduct, Nat.shiftRight_eq_div_pow]
  exact Nat.mod_eq_of_lt (Nat.div_lt_of_lt_mul hproduct)

/-- The high word of the product is at most the dividend. -/
theorem umulhi_le (n x : UInt32) : (umulhi n x).toNat ≤ n.toNat := by
  rw [umulhi_toNat]
  refine Nat.div_le_of_le_mul ?_
  rw [Nat.mul_comm]
  exact Nat.mul_le_mul_right _ x.toNat_lt.le

/-- With the values of `init_fastdiv_values` the shifted sum is the
quotient. -/
theorem toNat_fastdiv {d : UInt64} {values : Uint3} {n : UInt32}
    (hd : 1 ≤ d.toNat) (hmax : d.toNat ≤ 2 ^ 31)
    (hshift : IsShift d.toNat values.y.toNat)
    (hx : values.x.toNat
      = 2 ^ 32 * (2 ^ values.y.toNat - d.toNat) / d.toNat + 1)
    (hn : n.toNat < 2 ^ 31) :
    (fastdiv n values).toNat = n.toNat / d.toNat := by
  have hL := hshift.le_of_le hmax
  have hle := umulhi_le n values.x
  have hscale : n.toNat * d.toNat < 2 ^ 32 * 2 ^ values.y.toNat :=
    Nat.mul_lt_mul_of_lt_of_le (by omega) hshift.reaches (Nat.two_pow_pos _)
  calc (fastdiv n values).toNat
      = (n.toNat * values.x.toNat / 2 ^ 32 + n.toNat)
          / 2 ^ values.y.toNat := by
        rw [fastdiv, UInt32.toNat_shiftRight, UInt32.toNat_add,
          Nat.mod_eq_of_lt (a := _ + n.toNat) (by omega),
          Nat.mod_eq_of_lt (b := 32) (by omega),
          Nat.shiftRight_eq_div_pow, umulhi_toNat]
    _ = n.toNat * (values.x.toNat + 2 ^ 32) / 2 ^ 32
          / 2 ^ values.y.toNat := by
        rw [Nat.mul_add, Nat.add_mul_div_right _ _ (by decide)]
    _ = n.toNat * (2 ^ 32 * 2 ^ values.y.toNat / d.toNat + 1)
          / (2 ^ 32 * 2 ^ values.y.toNat) := by
        rw [hx, reciprocal_eq hd hshift.reaches, Nat.div_div_eq_div_mul]
    _ = n.toNat / d.toNat := mul_reciprocal_div hd hscale

/-- `fastdiv` is division: the search stops at the least shift, nothing of
the multiplier or of the sum wraps, and the shifted sum is the
quotient. -/
theorem fastdiv_eq_div (d : UInt64) (n : UInt32) (hd : 1 ≤ d.toNat)
    (hmax : d.toNat ≤ 2 ^ 31) (hn : n.toNat < 2 ^ 31) :
    ∃ values, initFastdivValues d = some values ∧
      (d.toNat ≤ 2 ^ values.y.toNat ∧ ∀ l < values.y.toNat, 2 ^ l < d.toNat) ∧
      2 ^ 32 * (2 ^ values.y.toNat - d.toNat) < 2 ^ 64 ∧
      values.x.toNat = 2 ^ 32 * (2 ^ values.y.toNat - d.toNat) / d.toNat + 1 ∧
      (umulhi n values.x).toNat + n.toNat < 2 ^ 32 ∧
      (fastdiv n values).toNat = n.toNat / d.toNat := by
  obtain ⟨values, hinit, hshift, hx⟩ := initFastdivValues_eq hd hmax
  have hle := umulhi_le n values.x
  have hsum : (umulhi n values.x).toNat + n.toNat < 2 ^ 32 := by omega
  exact ⟨values, hinit, ⟨hshift.reaches, hshift.least⟩,
    product_lt hshift hd hmax, hx, hsum, toNat_fastdiv hd hmax hshift hx hn⟩

theorem fastdiv_eq_div_largest :
    ∃ values, initFastdivValues (2 ^ 31) = some values ∧
      (fastdiv (2 ^ 31 - 1) values).toNat = (2 ^ 31 - 1) / 2 ^ 31 := by
  obtain ⟨values, hinit, -, -, -, -, hdiv⟩ :=
    fastdiv_eq_div (2 ^ 31) (2 ^ 31 - 1) (by decide) (by decide) (by decide)
  exact ⟨values, hinit, hdiv⟩

end Ginfer.Ops.Fastdiv
