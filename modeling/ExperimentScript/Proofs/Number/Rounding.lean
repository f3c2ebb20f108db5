import Mathlib.Algebra.Group.Int.Defs
import Mathlib.Algebra.Group.Nat.Defs
import ExperimentScript.Number.Binary64

/-
  What rounding a quotient gives.

  The scale of a quotient is the only one at which it has as
  many binary digits as a significand. So rounding does not
  depend on how the quotient is written, and a quotient that
  is nearer to a number than half a unit of its last place
  is rounded to that number.

  Key definitions include:
    * `ExperimentScript.Binary64.Fits`

  Main declarations:
    * `ExperimentScript.Binary64.fits_scaleOfRatio`
    * `ExperimentScript.Binary64.Fits.unique`
    * `ExperimentScript.Binary64.roundRatio_congr`
    * `ExperimentScript.Binary64.roundRatio_of_near`
-/

namespace ExperimentScript

namespace Binary64

------------------------------------------------------------
-- Scales
------------------------------------------------------------

/-
  At a scale, a quotient has at most 53 binary digits, and at
  least that many unless the scale is the least one.
-/
structure Fits (numerator denominator height : Nat) : Prop where
  below :
    numerator * 2 ^ 1074 < denominator * 2 ^ (height + 53)
  above :
    height = 0 ∨
      denominator * 2 ^ (height + 52) ≤ numerator * 2 ^ 1074

variable {numerator denominator height other low : Nat}

/- The power that the definitions of numbers use. -/
theorem pow_eq (base exponent : Nat) :
    Nat.pow base exponent = base ^ exponent := rfl

/- The scale that is taken first is high enough. -/
theorem lt_firstScale
    (hDenominator : 0 < denominator)
    (hScale :
      numerator.log2 + low ≤ denominator.log2 + height + 52) :
    numerator * 2 ^ low < denominator * 2 ^ (height + 53) := by
  have hUpper : numerator < 2 ^ (numerator.log2 + 1) :=
    Nat.lt_log2_self
  have hLower : 2 ^ denominator.log2 ≤ denominator :=
    Nat.log2_self_le (Nat.ne_of_gt hDenominator)
  have hTwo : 0 < 2 := by decide
  calc
    numerator * 2 ^ low
      < 2 ^ (numerator.log2 + 1) * 2 ^ low :=
        Nat.mul_lt_mul_of_pos_right hUpper (Nat.pow_pos hTwo)
    _ = 2 ^ (numerator.log2 + 1 + low) :=
        (Nat.pow_add ..).symm
    _ ≤ 2 ^ (denominator.log2 + (height + 53)) :=
        Nat.pow_le_pow_right hTwo (by omega)
    _ = 2 ^ denominator.log2 * 2 ^ (height + 53) := Nat.pow_add ..
    _ ≤ denominator * 2 ^ (height + 53) :=
        Nat.mul_le_mul_right _ hLower

/- The scale below the one that is taken first is low enough. -/
theorem le_of_firstScale
    (hNumerator : 0 < numerator)
    (hScale :
      denominator.log2 + height + 53 ≤ numerator.log2 + low) :
    denominator * 2 ^ (height + 52) ≤ numerator * 2 ^ low := by
  have hUpper : denominator ≤ 2 ^ (denominator.log2 + 1) :=
    Nat.le_of_lt Nat.lt_log2_self
  have hLower : 2 ^ numerator.log2 ≤ numerator :=
    Nat.log2_self_le (Nat.ne_of_gt hNumerator)
  calc
    denominator * 2 ^ (height + 52)
      ≤ 2 ^ (denominator.log2 + 1) * 2 ^ (height + 52) :=
        Nat.mul_le_mul_right _ hUpper
    _ = 2 ^ (denominator.log2 + 1 + (height + 52)) :=
        (Nat.pow_add ..).symm
    _ ≤ 2 ^ (numerator.log2 + low) :=
        Nat.pow_le_pow_right (by decide) (by omega)
    _ = 2 ^ numerator.log2 * 2 ^ low := Nat.pow_add ..
    _ ≤ numerator * 2 ^ low := Nat.mul_le_mul_right _ hLower

/- The scale of a quotient fits it. -/
theorem fits_scaleOfRatio
    (hNumerator : 0 < numerator)
    (hDenominator : 0 < denominator) :
    Fits numerator denominator
      (scaleOfRatio numerator denominator) := by
  have hFits := @Fits.mk numerator denominator
  have hUpper := @lt_firstScale numerator denominator
  have hLower := @le_of_firstScale numerator denominator
  replace hUpper := fun height => @hUpper height 1074 hDenominator
  replace hLower := fun height => @hLower height 1074 hNumerator
  unfold scaleOfRatio
  dsimp only
  generalize hFirst :
    numerator.log2 + 1074 - denominator.log2 - 52 = first
  split
  · rename_i hLess
    simp only [pow_eq] at hLess
    generalize 2 ^ 1074 = unit at hFits hUpper hLower hLess
    cases first with
    | zero => exact hFits (hUpper 0 (by omega)) (.inl rfl)
    | succ height =>
        rw [Nat.add_sub_cancel]
        rw [Nat.add_assoc height 1 52] at hLess
        refine hFits hLess ?_
        by_cases hScale : height = 0
        · exact .inl hScale
        · exact .inr (hLower height (by omega))
  · rename_i hNotLess
    simp only [pow_eq] at hNotLess
    generalize 2 ^ 1074 = unit at hFits hUpper hNotLess
    exact
      hFits (hUpper first (by omega))
        (.inr (Nat.le_of_not_lt hNotLess))

/- No scale fits below another one that does. -/
theorem Fits.not_lt
    (hFits : Fits numerator denominator height)
    (hOther : Fits numerator denominator other) :
    ¬ height < other := by
  intro hLess
  rcases hOther.above with hZero | hAbove
  · omega
  · have hPower : 2 ^ (height + 53) ≤ 2 ^ (other + 52) :=
      Nat.pow_le_pow_right (by decide) (by omega)
    have hBetween :=
      Nat.mul_le_mul_left denominator hPower
    exact Nat.lt_irrefl _
      (Nat.lt_of_lt_of_le hFits.below
        (Nat.le_trans hBetween hAbove))

theorem Fits.unique
    (hFits : Fits numerator denominator height)
    (hOther : Fits numerator denominator other) :
    height = other := by
  have hLeft := hFits.not_lt hOther
  have hRight := hOther.not_lt hFits
  omega

/- A scale fits a quotient however it is written. -/
theorem Fits.mul
    {factor : Nat}
    (hFactor : 0 < factor)
    (hFits : Fits numerator denominator height) :
    Fits (numerator * factor) (denominator * factor) height := by
  refine ⟨?_, ?_⟩
  · rw [Nat.mul_right_comm, Nat.mul_right_comm denominator]
    exact Nat.mul_lt_mul_of_pos_right hFits.below hFactor
  · rcases hFits.above with hZero | hAbove
    · exact .inl hZero
    · refine .inr ?_
      rw [Nat.mul_right_comm, Nat.mul_right_comm numerator]
      exact Nat.mul_le_mul_right _ hAbove

------------------------------------------------------------
-- Nearest Integers
------------------------------------------------------------

/- Rounding does not depend on how a quotient is written. -/
theorem roundHalfEven_mul
    {factor : Nat}
    (hFactor : 0 < factor)
    (numerator denominator : Nat) :
    roundHalfEven (numerator * factor) (denominator * factor) =
      roundHalfEven numerator denominator := by
  have hRest :
      2 * (numerator % denominator * factor) =
        2 * (numerator % denominator) * factor :=
    (Nat.mul_assoc ..).symm
  unfold roundHalfEven
  rw [Nat.mul_div_mul_right _ _ hFactor,
    Nat.mul_mod_mul_right, hRest]
  simp only [Nat.mul_lt_mul_right hFactor,
    Nat.mul_left_inj (Nat.ne_of_gt hFactor)]

/- What is nearer to an integer than a half is rounded to it. -/
theorem roundHalfEven_of_near
    {nearest : Nat}
    (hAbove :
      2 * (nearest * denominator) < 2 * numerator + denominator)
    (hBelow :
      2 * numerator < 2 * (nearest * denominator) + denominator) :
    roundHalfEven numerator denominator = nearest := by
  have hDenominator : 0 < denominator := by omega
  have hSum := Nat.div_add_mod numerator denominator
  have hRest := Nat.mod_lt numerator hDenominator
  rw [Nat.mul_comm] at hSum
  generalize hQuotient : numerator / denominator = quotient at hSum
  generalize hRemainder : numerator % denominator = rest
    at hSum hRest
  have hCases : quotient = nearest ∨ quotient + 1 = nearest := by
    have hNotAbove : ¬ nearest + 1 ≤ quotient := by
      intro hLe
      have hMul := Nat.mul_le_mul_right denominator hLe
      rw [Nat.add_mul] at hMul
      omega
    have hNotBelow : ¬ quotient + 2 ≤ nearest := by
      intro hLe
      have hMul := Nat.mul_le_mul_right denominator hLe
      rw [Nat.add_mul] at hMul
      omega
    omega
  unfold roundHalfEven
  rw [hQuotient, hRemainder]
  dsimp only
  rcases hCases with rfl | rfl
  · rw [if_neg]
    omega
  · rw [Nat.add_mul] at hAbove hBelow
    rw [if_pos]
    omega

------------------------------------------------------------
-- Nearest Numbers
------------------------------------------------------------

/- Quotients that are equal are rounded to the same number. -/
theorem roundRatio_congr
    {otherNumerator otherDenominator : Nat}
    (hNumerator : 0 < numerator)
    (hDenominator : 0 < denominator)
    (hOtherNumerator : 0 < otherNumerator)
    (hOtherDenominator : 0 < otherDenominator)
    (hEqual :
      numerator * otherDenominator =
        otherNumerator * denominator) :
    roundRatio numerator denominator =
      roundRatio otherNumerator otherDenominator := by
  have hLeft :=
    (fits_scaleOfRatio hNumerator hDenominator).mul
      hOtherDenominator
  have hRight :=
    (fits_scaleOfRatio hOtherNumerator hOtherDenominator).mul
      hDenominator
  rw [← hEqual, Nat.mul_comm otherDenominator] at hRight
  have hScale := hLeft.unique hRight
  have hRounded :
      roundHalfEven (numerator * 2 ^ 1074)
          (denominator *
            2 ^ scaleOfRatio numerator denominator) =
        roundHalfEven (otherNumerator * 2 ^ 1074)
          (otherDenominator *
            2 ^ scaleOfRatio numerator denominator) := by
    generalize 2 ^ 1074 = unit
    rw [← roundHalfEven_mul hOtherDenominator,
      ← roundHalfEven_mul hDenominator (otherNumerator * unit),
      Nat.mul_right_comm, hEqual,
      Nat.mul_right_comm otherNumerator,
      Nat.mul_right_comm denominator,
      Nat.mul_right_comm otherDenominator,
      Nat.mul_comm denominator]
  simp only [roundRatio, pow_eq]
  rw [hRounded, hScale]

/- The bits of a number are its significand above those of its scale. -/
theorem scale_add_significand (magnitude : Nat) :
    scale magnitude * 2 ^ 52 + significand magnitude =
      magnitude := by
  unfold scale significand
  simp only [pow_eq]
  split
  · omega
  · omega

theorem significand_lt (magnitude : Nat) :
    significand magnitude < 2 ^ 53 := by
  unfold significand
  simp only [pow_eq]
  split
  · omega
  · omega

/-
  A quotient is rounded to a finite number if it fits the
  scale of the number and is nearer to it than half a unit
  of the last place. Both are told by the quotient and the
  unit in any common measure.
-/
theorem roundRatio_of_near
    {magnitude factor value unit : Nat}
    (hFinite : magnitude < infinityBits)
    (hNumerator : 0 < numerator)
    (hDenominator : 0 < denominator)
    (hFactor : 0 < factor)
    (hValue : numerator * 2 ^ 1074 * factor = value)
    (hUnit : denominator * 2 ^ scale magnitude * factor = unit)
    (hBelow : value < 2 ^ 53 * unit)
    (hAbove : scale magnitude = 0 ∨ 2 ^ 52 * unit ≤ value)
    (hNear :
      2 * (significand magnitude * unit) < 2 * value + unit)
    (hFar :
      2 * value < 2 * (significand magnitude * unit) + unit) :
    roundRatio numerator denominator = magnitude := by
  have hPower :
      ∀ e,
        denominator * 2 ^ (scale magnitude + e) * factor =
          2 ^ e * unit := by
    intro e
    rw [← hUnit, Nat.pow_add]
    ac_rfl
  have hFits :
      Fits numerator denominator (scale magnitude) := by
    refine ⟨?_, hAbove.imp_right fun hLe => ?_⟩
    · rw [← hValue, ← hPower] at hBelow
      exact Nat.lt_of_mul_lt_mul_right hBelow
    · rw [← hValue, ← hPower] at hLe
      exact Nat.le_of_mul_le_mul_right hLe hFactor
  have hScale :=
    (fits_scaleOfRatio hNumerator hDenominator).unique hFits
  have hRounded :
      roundHalfEven (numerator * 2 ^ 1074)
          (denominator * 2 ^ scale magnitude) =
        significand magnitude := by
    rw [← roundHalfEven_mul hFactor, hValue, hUnit]
    exact roundHalfEven_of_near hNear hFar
  simp only [roundRatio, pow_eq]
  rw [hScale, hRounded, scale_add_significand]
  exact Nat.min_eq_left (Nat.le_of_lt hFinite)

end Binary64

end ExperimentScript
