/-
The resolved KV capacity is the largest that fits.

`Wanted` says in exact arithmetic what a policy asks for: the greatest
number of page groups whose reservation leaves the headroom, or the
explicit tokens in whole pages. Dividing what is left after the least
reservation by the bytes of a page group gives the first
(`wanted_automatic`), and every sum and product on the way to the result
is checked by the code but one: the least number of page groups and the
quotient. Where that sum passes `2 ^ 64`, a curve with more page groups
to give is resolved to fewer than its least number, and refused
(`kv_capacity_resolved_iff`).
-/
import Mathlib.Algebra.Order.Group.Nat
import Ginfer.Executor.KvCapacity

namespace Ginfer.KvCapacity

open Ginfer.Lib

-- ============ what is asked

/-- The reservation of a number of page groups. -/
def SequenceCapacityCurve.reservation (curve : SequenceCapacityCurve)
    (pages : Nat) : Nat :=
  curve.minimumDeviceReservationBytes
    + (pages - curve.minimumMainPageGroups)
      * curve.bytesPerAdditionalMainPageGroup

/-- Page groups the curve has, and room for them beside the headroom. -/
def Fits (policy : KvCapacityPolicy) (curve : SequenceCapacityCurve)
    (available pages : Nat) : Prop :=
  curve.minimumMainPageGroups ≤ pages ∧ pages ≤ curve.maximumMainPageGroups
    ∧ curve.reservation pages + policy.automaticHeadroomBytes ≤ available

/-- The page groups a policy asks for: the most that fit, or those of the
explicit tokens, rounded up. -/
def Wanted (policy : KvCapacityPolicy) (curve : SequenceCapacityCurve)
    (available pages : Nat) : Prop :=
  Fits policy curve available pages
    ∧ match policy.mode with
      | .automatic => ∀ more, Fits policy curve available more → more ≤ pages
      | .explicit =>
        policy.explicitTokens ≤ pages * curve.mainPageTokens
          ∧ (pages - 1) * curve.mainPageTokens < policy.explicitTokens

/-- What the checks of the code let pass: a valid curve, a budget for the
least reservation, an explicit capacity within the curve; and the tokens
of the wanted page groups are a 32-bit count. -/
structure Accepted (policy : KvCapacityPolicy)
    (curve : SequenceCapacityCurve) (available : Nat) : Prop where
  available_lt : available < 2 ^ 64
  curve_valid : validateCurve curve = .ok ()
  explicit_fits : policy.mode = .explicit → policy.explicitTokens ≠ 0
    ∧ policy.automaticHeadroomBytes = 0
    ∧ Fits policy curve available
        (1 + (policy.explicitTokens - 1) / curve.mainPageTokens)
  automatic_fits : policy.mode = .automatic →
    policy.automaticHeadroomBytes ≤ available
      ∧ curve.minimumDeviceReservationBytes
        ≤ available - policy.automaticHeadroomBytes
  tokens_fit : ∀ pages, Wanted policy curve available pages →
    pages * curve.mainPageTokens < 2 ^ 32

/-- The code resolves to what is asked, and reports its reservation, the
slack and the tokens as they are in exact arithmetic. -/
def Resolves (policy : KvCapacityPolicy) (curve : SequenceCapacityCurve)
    (available : Nat) : Prop :=
  ∃ r, resolveKvCapacity policy curve available = .ok r
    ∧ Wanted policy curve available r.mainPageGroups
    ∧ r.runtimeReservationBytes = curve.reservation r.mainPageGroups
    ∧ r.plannedSlackBytes = available - curve.reservation r.mainPageGroups
    ∧ r.resolvedTokens = r.mainPageGroups * curve.mainPageTokens
    ∧ curve.reservation r.mainPageGroups < 2 ^ 64

/-- The sum the code leaves unchecked does not wrap. -/
def CandidateFits (policy : KvCapacityPolicy)
    (curve : SequenceCapacityCurve) (available : Nat) : Prop :=
  policy.mode = .automatic →
    curve.minimumMainPageGroups < curve.maximumMainPageGroups →
    curve.minimumMainPageGroups
      + (available - policy.automaticHeadroomBytes
          - curve.minimumDeviceReservationBytes)
        / curve.bytesPerAdditionalMainPageGroup < 2 ^ 64

-- ============ the arithmetic

/-- The facts `validate_curve` establishes. -/
structure CurveFacts (curve : SequenceCapacityCurve) : Prop where
  page_tokens : 0 < curve.mainPageTokens
  minimum : 0 < curve.minimumMainPageGroups
  ordered : curve.minimumMainPageGroups ≤ curve.maximumMainPageGroups
  reservation : 0 < curve.minimumDeviceReservationBytes
  stride : curve.minimumMainPageGroups < curve.maximumMainPageGroups →
    0 < curve.bytesPerAdditionalMainPageGroup

variable {policy : KvCapacityPolicy} {curve : SequenceCapacityCurve}
  {available : Nat}

theorem validateCurve_ok (h : validateCurve curve = .ok ()) :
    CurveFacts curve := by
  unfold validateCurve at h
  split at h
  · exact nomatch h
  · next hbasic =>
    split at h
    · exact nomatch h
    · next hstride =>
      exact ⟨by omega, by omega, by omega, by omega, fun hlt => by
        omega⟩

theorem checkedAdd_eq {a b : Nat} (label : String) (h : a + b < 2 ^ 64) :
    checkedAdd a b label = .ok (a + b) :=
  if_neg (by omega)

theorem checkedMul_eq {a b : Nat} (label : String) (h : a * b < 2 ^ 64) :
    checkedMul a b label = .ok (a * b) := by
  refine if_neg ?_
  rintro ⟨hb, hlt⟩
  have := (Nat.div_lt_iff_lt_mul (by omega)).mp hlt
  omega

variable {pages : Nat} (hcurve : validateCurve curve = .ok ())
  (hmin : curve.minimumMainPageGroups ≤ pages)
  (hmax : pages ≤ curve.maximumMainPageGroups)

include hcurve hmin hmax

theorem checkPages_ok : curve.checkPages pages = .ok () := by
  unfold SequenceCapacityCurve.checkPages
  rw [hcurve]
  exact if_neg (by omega)

/-- A reservation that is a word is computed without a wrap. -/
theorem reservationBytes_eq (hword : curve.reservation pages < 2 ^ 64) :
    curve.reservationBytes pages = .ok (curve.reservation pages) := by
  unfold SequenceCapacityCurve.reservation at hword ⊢
  unfold SequenceCapacityCurve.reservationBytes
  rw [checkPages_ok hcurve hmin hmax]
  change (checkedMul _ _ _ >>= fun increment =>
    checkedAdd _ increment _) = _
  rw [checkedMul_eq _ (by omega)]
  exact checkedAdd_eq _ hword

theorem resolvedTokens_eq (htokens : pages * curve.mainPageTokens < 2 ^ 32) :
    curve.resolvedTokens pages = .ok (pages * curve.mainPageTokens) := by
  unfold SequenceCapacityCurve.resolvedTokens
  rw [checkPages_ok hcurve hmin hmax]
  change (if 2 ^ 32 - 1 < pages * curve.mainPageTokens then
    Except.error _ else _) = _
  exact if_neg (by omega)

omit hcurve hmin hmax

-- ============ the selection

/-- Whole pages over `tokens`: enough, and one fewer is not. -/
theorem ceil_pages {tokens pageTokens : Nat} (htokens : tokens ≠ 0)
    (hpage : 0 < pageTokens) :
    tokens ≤ (1 + (tokens - 1) / pageTokens) * pageTokens
      ∧ (1 + (tokens - 1) / pageTokens - 1) * pageTokens < tokens := by
  have hlow := Nat.div_mul_le_self (tokens - 1) pageTokens
  have hhigh := Nat.lt_mul_div_succ (tokens - 1) hpage
  rw [Nat.mul_comm] at hhigh
  rw [Nat.add_comm 1, Nat.add_sub_cancel]
  omega

/-- What is left after the least reservation, divided by the stride: the
page groups that fit are the least ones and at most as many more. -/
theorem fits_iff (hmode : policy.automaticHeadroomBytes ≤ available)
    (hleast : curve.minimumDeviceReservationBytes
      ≤ available - policy.automaticHeadroomBytes)
    (hstride : 0 < curve.bytesPerAdditionalMainPageGroup) (pages : Nat) :
    Fits policy curve available pages
      ↔ curve.minimumMainPageGroups ≤ pages
        ∧ pages ≤ min (curve.minimumMainPageGroups
            + (available - policy.automaticHeadroomBytes
                - curve.minimumDeviceReservationBytes)
              / curve.bytesPerAdditionalMainPageGroup)
          curve.maximumMainPageGroups := by
  have hdiv := Nat.le_div_iff_mul_le hstride
    (x := pages - curve.minimumMainPageGroups)
    (y := available - policy.automaticHeadroomBytes
      - curve.minimumDeviceReservationBytes)
  unfold Fits SequenceCapacityCurve.reservation
  omega

/-- The page groups the automatic mode selects, where its sum does not
wrap, are the wanted ones. -/
theorem wanted_automatic (hmode : policy.mode = .automatic)
    (haccepted : Accepted policy curve available)
    (hfits : CandidateFits policy curve available) :
    ∃ pages, selectPages policy curve available
        = .ok (pages, available - policy.automaticHeadroomBytes)
      ∧ Wanted policy curve available pages := by
  have hcurve := validateCurve_ok haccepted.curve_valid
  obtain ⟨hheadroom, hleast⟩ := haccepted.automatic_fits hmode
  have hordered := hcurve.ordered
  unfold selectPages Wanted
  rw [hmode]
  dsimp only
  rw [if_neg (by omega), if_neg (by omega)]
  by_cases hgrows : curve.minimumMainPageGroups < curve.maximumMainPageGroups
  · rw [if_pos hgrows]
    have hsum : candidatePages curve (available - policy.automaticHeadroomBytes)
        = curve.minimumMainPageGroups
          + (available - policy.automaticHeadroomBytes
              - curve.minimumDeviceReservationBytes)
            / curve.bytesPerAdditionalMainPageGroup :=
      sizeAdd_eq (hfits hmode hgrows)
    rw [hsum]
    have hiff := @fits_iff policy curve available hheadroom hleast
      (hcurve.stride hgrows)
    refine ⟨_, rfl, (hiff _).mpr ⟨?_, Nat.le_refl _⟩,
      fun more hmore => ((hiff more).mp hmore).2⟩
    exact Nat.le_min.mpr ⟨Nat.le_add_right _ _, hordered⟩
  · rw [if_neg hgrows]
    refine ⟨_, rfl, ⟨Nat.le_refl _, hordered, ?_⟩, fun more hmore => ?_⟩
    · unfold SequenceCapacityCurve.reservation
      rw [Nat.sub_self, Nat.zero_mul]
      omega
    · have := hmore.2.1
      omega

/-- So are those of the explicit mode. -/
theorem wanted_explicit (hmode : policy.mode = .explicit)
    (haccepted : Accepted policy curve available) :
    ∃ pages, selectPages policy curve available = .ok (pages, available)
      ∧ Wanted policy curve available pages := by
  have hcurve := validateCurve_ok haccepted.curve_valid
  obtain ⟨htokens, hheadroom, hfits⟩ := haccepted.explicit_fits hmode
  have hword := curve.maximum_main_page_groups_lt
  have hmax := hfits.2.1
  refine ⟨_, ?_, hfits, ?_⟩
  · unfold selectPages explicitPageGroups
    rw [hmode]
    dsimp only
    rw [if_neg (not_not.mpr hheadroom), if_neg htokens, if_neg (by omega)]
    rfl
  · rw [hmode]
    exact ceil_pages htokens hcurve.page_tokens

-- ============ the resolution

/-- From the wanted page groups on, every checked operation is exact. -/
theorem resolves_of_selected (haccepted : Accepted policy curve available)
    {pages budget : Nat}
    (hselect : selectPages policy curve available = .ok (pages, budget))
    (hbudget : available = budget + policy.automaticHeadroomBytes)
    (hwanted : Wanted policy curve available pages) :
    Resolves policy curve available := by
  obtain ⟨hmin, hmax, hroom⟩ := hwanted.1
  have hword := haccepted.available_lt
  have hreservation := reservationBytes_eq haccepted.curve_valid hmin hmax
    (by omega)
  have htokens := resolvedTokens_eq haccepted.curve_valid hmin hmax
    (haccepted.tokens_fit pages hwanted)
  refine ⟨{
    mode := policy.mode
    mainPageGroups := pages
    maximumMainPageGroups := curve.maximumMainPageGroups
    resolvedTokens := pages * curve.mainPageTokens
    minimumRuntimeReservationBytes := curve.minimumDeviceReservationBytes
    bytesPerAdditionalMainPageGroup := curve.bytesPerAdditionalMainPageGroup
    runtimeReservationBytes := curve.reservation pages
    availableAfterWeightsBytes := available
    automaticHeadroomBytes := policy.automaticHeadroomBytes
    plannedSlackBytes := available - curve.reservation pages },
    ?_, hwanted, rfl, rfl, rfl, by dsimp only; omega⟩
  unfold resolveKvCapacity
  rw [haccepted.curve_valid, hselect]
  change (curve.reservationBytes pages >>= fun reservation => _) = _
  rw [hreservation]
  change (if budget < curve.reservation pages then _ else _) = _
  rw [if_neg (by omega)]
  rw [htokens]
  rfl

/-- Where the automatic mode's sum wraps, it selects fewer page groups
than the curve's least, and the resolution is refused. -/
theorem not_resolves_of_wraps (haccepted : Accepted policy curve available)
    (hwraps : ¬ CandidateFits policy curve available) :
    ¬ Resolves policy curve available := by
  unfold CandidateFits at hwraps
  rw [Classical.not_imp, Classical.not_imp] at hwraps
  obtain ⟨hmode, hgrows, hsum⟩ := hwraps
  have hcurve := validateCurve_ok haccepted.curve_valid
  obtain ⟨hheadroom, hleast⟩ := haccepted.automatic_fits hmode
  have hstride := hcurve.stride hgrows
  have hpositive := hcurve.reservation
  have havailable := haccepted.available_lt
  have hquotient := Nat.div_le_self
    (available - policy.automaticHeadroomBytes
      - curve.minimumDeviceReservationBytes)
    curve.bytesPerAdditionalMainPageGroup
  have hbelow : candidatePages curve (available - policy.automaticHeadroomBytes)
      < curve.minimumMainPageGroups := by
    unfold candidatePages sizeAdd wrapAdd
    generalize (available - policy.automaticHeadroomBytes
        - curve.minimumDeviceReservationBytes)
      / curve.bytesPerAdditionalMainPageGroup = quotient
      at hquotient hsum ⊢
    omega
  have hselect : selectPages policy curve available
      = .ok (min (candidatePages curve
          (available - policy.automaticHeadroomBytes))
        curve.maximumMainPageGroups,
        available - policy.automaticHeadroomBytes) := by
    unfold selectPages
    rw [hmode]
    dsimp only
    rw [if_neg (by omega), if_neg (by omega), if_pos hgrows]
  rintro ⟨r, hresolve, -⟩
  unfold resolveKvCapacity at hresolve
  rw [haccepted.curve_valid, hselect] at hresolve
  change (curve.reservationBytes _ >>= fun reservation => _) = _ at hresolve
  have hrefused : curve.reservationBytes (min (candidatePages curve
          (available - policy.automaticHeadroomBytes))
        curve.maximumMainPageGroups)
      = .error (.invalidArgument
        "Main KV page count is outside the target capacity curve") := by
    unfold SequenceCapacityCurve.reservationBytes SequenceCapacityCurve.checkPages
    rw [haccepted.curve_valid]
    dsimp only
    rw [if_pos (by omega)]
    rfl
  rw [hrefused] at hresolve
  exact nomatch hresolve

/-- The code resolves to what is asked exactly where the sum it leaves
unchecked does not wrap. -/
theorem kv_capacity_resolved_iff
    (policy : KvCapacityPolicy) (curve : SequenceCapacityCurve)
    (available : Nat) (haccepted : Accepted policy curve available) :
    Resolves policy curve available
      ↔ CandidateFits policy curve available := by
  constructor
  · intro hresolves
    by_contra hwraps
    exact not_resolves_of_wraps haccepted hwraps hresolves
  · intro hfits
    cases hmode : policy.mode with
    | automatic =>
      obtain ⟨pages, hselect, hwanted⟩ :=
        wanted_automatic hmode haccepted hfits
      have := (haccepted.automatic_fits hmode).1
      exact resolves_of_selected haccepted hselect (by omega) hwanted
    | explicit =>
      obtain ⟨pages, hselect, hwanted⟩ := wanted_explicit hmode haccepted
      have := (haccepted.explicit_fits hmode).2.1
      exact resolves_of_selected haccepted hselect (by omega) hwanted

/-- A curve of two to six page groups of 64 tokens. -/
def sixPages : SequenceCapacityCurve :=
  ⟨64, 2, 6, 1000, 128, by decide, by decide, by decide, by decide, by decide⟩

/-- As many page groups as fit beside a headroom of 50 bytes. -/
def besideFifty : KvCapacityPolicy :=
  ⟨.automatic, 0, 50, by decide, by decide⟩

theorem sixPages_accepted : Accepted besideFifty sixPages 1360 where
  available_lt := by decide
  curve_valid := rfl
  explicit_fits := nofun
  automatic_fits := fun _ => by decide
  tokens_fit := fun pages hwanted => by
    have hmax : pages ≤ 6 := hwanted.1.2.1
    change pages * 64 < 2 ^ 32
    omega

/-- They are resolved. -/
theorem kv_capacity_resolved_sixPages : Resolves besideFifty sixPages 1360 :=
  (kv_capacity_resolved_iff besideFifty sixPages 1360
    sixPages_accepted).mpr fun _ _ => by decide

/-- A curve of five or six page groups of one byte each. -/
def oneByteStride : SequenceCapacityCurve :=
  ⟨1, 5, 6, 1, 1, by decide, by decide, by decide, by decide, by decide⟩

/-- As many page groups as fit. -/
def noHeadroom : KvCapacityPolicy :=
  ⟨.automatic, 0, 0, by decide, by decide⟩

theorem oneByteStride_accepted :
    Accepted noHeadroom oneByteStride (2 ^ 64 - 1) where
  available_lt := by decide
  curve_valid := rfl
  explicit_fits := nofun
  automatic_fits := fun _ => by decide
  tokens_fit := fun pages hwanted => by
    have hmax : pages ≤ 6 := hwanted.1.2.1
    change pages * 1 < 2 ^ 32
    omega

/-- With all of a 64-bit memory to give, the quotient is `2 ^ 64 - 2` and
the sum with the five least page groups wraps to three. -/
theorem kv_capacity_wraps :
    ¬ ∀ (policy : KvCapacityPolicy) (curve : SequenceCapacityCurve)
        (available : Nat), Accepted policy curve available →
          Resolves policy curve available := by
  intro hall
  refine not_resolves_of_wraps oneByteStride_accepted (fun hfits => ?_)
    (hall noHeadroom oneByteStride (2 ^ 64 - 1) oneByteStride_accepted)
  exact absurd (hfits rfl (by decide)) (by decide)

end Ginfer.KvCapacity
