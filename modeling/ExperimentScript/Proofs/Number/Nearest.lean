import Mathlib.Algebra.Order.Field.Rat
import Mathlib.Data.Rat.Cast.Order
import Mathlib.Tactic.FieldSimp
import Mathlib.Tactic.Linarith
import Mathlib.Tactic.Positivity
import Mathlib.Tactic.Ring
import ExperimentScript.Proofs.Number.Shortest

/-
  Decimal digits are read as the nearest number.

  Every finite number is a whole multiple of the least one.
  At the scale of a quotient its neighbours are multiples of
  one unit, and so are all numbers from the least one of that
  scale on, while smaller numbers are further away. Rounding
  to the nearest multiple therefore gives the nearest number,
  and of two that are equally near the one with an even
  significand. A quotient from half a unit above the largest
  number on is infinite.

  Key definitions include:
    * `ExperimentScript.Binary64.toRat`
    * `ExperimentScript.Binary64.IsNearest`
    * `ExperimentScript.Binary64.overflow`

  Main declarations:
    * `ExperimentScript.Binary64.IsNearest.unique`
    * `ExperimentScript.Binary64.ofDecimal_lt_iff`
    * `ExperimentScript.Binary64.isNearest_ofDecimal`
-/

namespace ExperimentScript

namespace Binary64

------------------------------------------------------------
-- Values
------------------------------------------------------------

/- A finite magnitude as a multiple of the least one above zero. -/
def units (magnitude : Nat) : Nat :=
  significand magnitude * 2 ^ scale magnitude

/- The sign of a number as a factor. -/
def side (negative : Bool) : ℚ :=
  if negative then -1 else 1

/- The rational number that a finite number is. -/
def toRat (x : Binary64) : ℚ :=
  side x.negative * (units x.magnitude / 2 ^ 1074)

/-
  A finite number is nearest to a rational one: no other
  finite number is nearer, and if one is as near, then the
  significand is even.
-/
structure IsNearest
    (x : Binary64)
    (value : ℚ) : Prop where
  finite : x.isFinite = true
  nearest :
    ∀ other : Binary64, other.isFinite = true →
      |x.toRat - value| ≤ |other.toRat - value|
  even :
    ∀ other : Binary64, other.isFinite = true →
      other.toRat ≠ x.toRat →
        |x.toRat - value| = |other.toRat - value| →
          Even (significand x.magnitude)

/- Half a unit of its last place above the largest finite number. -/
def overflow : ℚ :=
  (2 ^ 54 - 1) * 2 ^ 970

variable {numerator denominator height : Nat}

------------------------------------------------------------
-- Nearest Integers
------------------------------------------------------------

/- No integer is nearer to a quotient than the one it is rounded to. -/
theorem roundHalfEven_nearest
    (hDenominator : 0 < denominator)
    (other : Nat) :
    |(roundHalfEven numerator denominator * denominator : ℤ) -
        numerator| ≤
      |(other * denominator : ℤ) - numerator| ∧
    (|(roundHalfEven numerator denominator * denominator : ℤ) -
        numerator| =
        |(other * denominator : ℤ) - numerator| →
      other ≠ roundHalfEven numerator denominator →
        Even (roundHalfEven numerator denominator)) := by
  have hSum := Nat.div_add_mod numerator denominator
  have hRest := Nat.mod_lt numerator hDenominator
  unfold roundHalfEven
  generalize numerator / denominator = quotient at hSum ⊢
  generalize numerator % denominator = rest at hSum hRest ⊢
  have hNumerator :
      (numerator : ℤ) = quotient * denominator + rest := by
    rw [← hSum]
    push_cast
    ring
  have hBelow :
      (quotient * denominator : ℤ) - numerator = -rest := by
    rw [hNumerator]
    ring
  have hAbove :
      ((quotient + 1 : ℕ) * denominator : ℤ) - numerator =
        denominator - rest := by
    rw [hNumerator]
    push_cast
    ring
  -- All other integers are a whole denominator away at least.
  have hFar :
      other = quotient ∨ other = quotient + 1 ∨
        (denominator : ℤ) ≤ |(other * denominator : ℤ) - numerator| := by
    have hOther :
        (other * denominator : ℤ) - numerator =
          (other - quotient : ℤ) * denominator - rest := by
      rw [hNumerator]
      ring
    rcases Nat.lt_trichotomy other quotient with
      hLess | hEq | hMore
    · have hFactor : (other - quotient : ℤ) ≤ -1 := by omega
      have hProduct :=
        Int.mul_le_mul_of_nonneg_right hFactor
          (Int.natCast_nonneg denominator)
      rw [hOther, abs_of_nonpos (by omega)]
      omega
    · exact .inl hEq
    · by_cases hNext : other = quotient + 1
      · exact .inr (.inl hNext)
      · have hFactor : (2 : ℤ) ≤ other - quotient := by omega
        have hProduct :=
          Int.mul_le_mul_of_nonneg_right hFactor
            (Int.natCast_nonneg denominator)
        rw [hOther, abs_of_nonneg (by omega)]
        omega
  have hDown : |(quotient * denominator : ℤ) - numerator| = rest := by
    rw [hBelow, abs_neg, Nat.abs_cast]
  have hUp :
      |((quotient + 1 : ℕ) * denominator : ℤ) - numerator| =
        denominator - rest := by
    rw [hAbove, abs_of_nonneg (by omega)]
  dsimp only
  split
  · rename_i hRound
    rw [hUp]
    rcases hFar with rfl | rfl | hFar
    · rw [hDown]
      refine ⟨by omega, fun hSame _ => ?_⟩
      rw [Nat.even_iff]
      omega
    · rw [hUp]
      exact ⟨le_refl _, fun _ hOther => absurd rfl hOther⟩
    · exact ⟨by omega, fun hSame _ => by omega⟩
  · rename_i hKeep
    rw [hDown]
    rcases hFar with rfl | rfl | hFar
    · rw [hDown]
      exact ⟨le_refl _, fun _ hOther => absurd rfl hOther⟩
    · rw [hUp]
      refine ⟨by omega, fun hSame _ => ?_⟩
      rw [Nat.even_iff]
      omega
    · exact ⟨by omega, fun hSame _ => by omega⟩

------------------------------------------------------------
-- Numbers As Multiples
------------------------------------------------------------

@[simp] theorem units_zero : units 0 = 0 := rfl

/-
  The bits of a scale with a rounded integer are those of the
  integer at that scale, also if it has one more binary digit
  than a significand.
-/
theorem scale_significand_add
    {rounded : Nat}
    (hUpper : rounded ≤ 2 ^ 53)
    (hLower : height = 0 ∨ 2 ^ 52 ≤ rounded) :
    (scale (height * 2 ^ 52 + rounded) = height ∧
        significand (height * 2 ^ 52 + rounded) = rounded) ∨
      (rounded = 2 ^ 53 ∧
        scale (height * 2 ^ 52 + rounded) = height + 1 ∧
        significand (height * 2 ^ 52 + rounded) = 2 ^ 52) := by
  unfold scale significand
  simp only [pow_eq]
  split <;> omega

theorem units_add
    {rounded : Nat}
    (hUpper : rounded ≤ 2 ^ 53)
    (hLower : height = 0 ∨ 2 ^ 52 ≤ rounded) :
    units (height * 2 ^ 52 + rounded) = rounded * 2 ^ height := by
  unfold units
  rcases scale_significand_add hUpper hLower with
    ⟨hScale, hSignificand⟩ | ⟨hRounded, hScale, hSignificand⟩
  · rw [hScale, hSignificand]
  · rw [hScale, hSignificand, hRounded, Nat.pow_succ 2 height,
      Nat.pow_succ 2 52, Nat.mul_assoc, Nat.mul_comm 2]

theorem even_significand_add
    {rounded : Nat}
    (hUpper : rounded ≤ 2 ^ 53)
    (hLower : height = 0 ∨ 2 ^ 52 ≤ rounded)
    (hEven : Even rounded) :
    Even (significand (height * 2 ^ 52 + rounded)) := by
  rcases scale_significand_add hUpper hLower with
    ⟨-, hSignificand⟩ | ⟨-, -, hSignificand⟩
  · rwa [hSignificand]
  · rw [hSignificand]
    exact ⟨2 ^ 51, rfl⟩

/-
  From the least number of a scale on all numbers are whole
  multiples of its unit.
-/
theorem exists_units_eq
    {magnitude : Nat}
    (hScale : height ≤ scale magnitude) :
    ∃ factor, units magnitude = factor * 2 ^ height := by
  refine ⟨significand magnitude * 2 ^ (scale magnitude - height), ?_⟩
  rw [units, Nat.mul_assoc, ← Nat.pow_add, Nat.sub_add_cancel hScale]

/- Numbers of a lower scale are below the least one of a scale. -/
theorem units_lt
    {magnitude : Nat}
    (hScale : scale magnitude < height) :
    units magnitude < 2 ^ 52 * 2 ^ height := by
  have hPower : 2 ^ (53 + scale magnitude) ≤ 2 ^ (52 + height) :=
    Nat.pow_le_pow_right (by decide) (by omega)
  calc
    units magnitude < 2 ^ 53 * 2 ^ scale magnitude :=
      Nat.mul_lt_mul_of_pos_right (significand_lt magnitude)
        (pow_pos Nat.two_pos _)
    _ = 2 ^ (53 + scale magnitude) := (Nat.pow_add ..).symm
    _ ≤ 2 ^ (52 + height) := hPower
    _ = 2 ^ 52 * 2 ^ height := Nat.pow_add ..

/- Larger magnitudes are larger numbers. -/
theorem units_strictMono : StrictMono units := by
  refine strictMono_nat_of_lt_succ fun magnitude => ?_
  have hParts := scale_add_significand magnitude
  have hBelow := significand_lt magnitude
  have hLower :
      scale magnitude = 0 ∨ 2 ^ 52 ≤ significand magnitude + 1 :=
    (Nat.eq_zero_or_pos _).imp_right fun hScale =>
      Nat.le_succ_of_le (le_significand (Nat.ne_of_gt hScale))
  have hNext := units_add hBelow hLower
  rw [Nat.succ_eq_add_one, ← Nat.add_assoc, hParts, Nat.add_one_mul]
    at hNext
  rw [hNext]
  exact Nat.lt_add_of_pos_right (pow_pos Nat.two_pos _)

/- Neighbours have significands of which one is even. -/
theorem even_significand_iff (magnitude : Nat) :
    Even (significand magnitude) ↔ Even magnitude := by
  rw [Nat.even_iff, Nat.even_iff, significand]
  simp only [pow_eq]
  split <;> omega

------------------------------------------------------------
-- Nearest Magnitudes
------------------------------------------------------------

/- What a quotient is rounded to in units of its scale. -/
def multiple (numerator denominator : Nat) : Nat :=
  roundHalfEven (numerator * 2 ^ 1074)
    (denominator * 2 ^ scaleOfRatio numerator denominator)

theorem roundRatio_eq (numerator denominator : Nat) :
    roundRatio numerator denominator =
      min
        (scaleOfRatio numerator denominator * 2 ^ 52 +
          multiple numerator denominator)
        infinityBits := by
  simp only [roundRatio, multiple, pow_eq]

section Rounding

variable (hNumerator : 0 < numerator) (hDenominator : 0 < denominator)

include hNumerator hDenominator

/-
  The multiple has no more than 53 binary digits, or is the
  power of two after them, and it has as many of them unless
  the scale is the least one.
-/
theorem multiple_bounds :
    multiple numerator denominator ≤ 2 ^ 53 ∧
      (scaleOfRatio numerator denominator = 0 ∨
        2 ^ 52 ≤ multiple numerator denominator) := by
  have hFits := fits_scaleOfRatio hNumerator hDenominator
  have hUnit :
      0 < denominator * 2 ^ scaleOfRatio numerator denominator :=
    Nat.mul_pos hDenominator (pow_pos Nat.two_pos _)
  have hCases :=
    roundHalfEven_cases (numerator * 2 ^ 1074)
      (denominator * 2 ^ scaleOfRatio numerator denominator)
  have hPower (digits : Nat) :
      denominator *
          2 ^ (scaleOfRatio numerator denominator + digits) =
        2 ^ digits *
          (denominator *
            2 ^ scaleOfRatio numerator denominator) := by
    rw [Nat.pow_add, Nat.mul_comm (2 ^ _), Nat.mul_left_comm]
  rw [multiple]
  refine ⟨?_, hFits.above.imp_right fun hAbove => ?_⟩
  · have hBelow := hFits.below
    rw [hPower] at hBelow
    have hQuotient := (Nat.div_lt_iff_lt_mul hUnit).mpr hBelow
    omega
  · rw [hPower] at hAbove
    have hQuotient := (Nat.le_div_iff_mul_le hUnit).mpr hAbove
    omega

/- No number is nearer to a quotient than the multiple. -/
theorem multiple_nearest (other : Nat) :
    |((multiple numerator denominator *
          2 ^ scaleOfRatio numerator denominator : ℕ) *
          denominator : ℤ) - (numerator * 2 ^ 1074 : ℕ)| ≤
      |(units other * denominator : ℤ) -
        (numerator * 2 ^ 1074 : ℕ)| ∧
    (|((multiple numerator denominator *
          2 ^ scaleOfRatio numerator denominator : ℕ) *
          denominator : ℤ) - (numerator * 2 ^ 1074 : ℕ)| =
        |(units other * denominator : ℤ) -
          (numerator * 2 ^ 1074 : ℕ)| →
      units other ≠
          multiple numerator denominator *
            2 ^ scaleOfRatio numerator denominator →
        Even (multiple numerator denominator)) := by
  have hFits := fits_scaleOfRatio hNumerator hDenominator
  have hUnit :
      0 < denominator * 2 ^ scaleOfRatio numerator denominator :=
    Nat.mul_pos hDenominator (pow_pos Nat.two_pos _)
  have hNearest (factor : Nat) :=
    @roundHalfEven_nearest (numerator * 2 ^ 1074) _ hUnit factor
  have hAbove := hFits.above
  rw [multiple]
  generalize numerator * 2 ^ 1074 = value at hAbove hNearest ⊢
  generalize scaleOfRatio numerator denominator = height
    at hAbove hNearest ⊢
  have hProduct (factor : Nat) :
      ((factor * 2 ^ height : ℕ) * denominator : ℤ) =
        factor * (denominator * 2 ^ height : ℕ) := by
    push_cast
    ring
  rw [hProduct]
  rcases Nat.lt_or_ge (scale other) height with hLess | hScale
  · have hLow :
        units other * denominator <
          2 ^ 52 * (denominator * 2 ^ height) := by
      calc
        units other * denominator
          < 2 ^ 52 * 2 ^ height * denominator :=
            Nat.mul_lt_mul_of_pos_right (units_lt hLess) hDenominator
        _ = 2 ^ 52 * (denominator * 2 ^ height) := by ring
    have hValue : 2 ^ 52 * (denominator * 2 ^ height) ≤ value := by
      calc
        2 ^ 52 * (denominator * 2 ^ height)
          = denominator * 2 ^ (height + 52) := by
            rw [Nat.pow_add]
            ring
        _ ≤ value := hAbove.resolve_left (by omega)
    have hCloser := (hNearest (2 ^ 52)).1
    have hFactor :
        ((2 ^ 52 : ℕ) * (denominator * 2 ^ height : ℕ) : ℤ) ≤ value := by
      exact_mod_cast hValue
    have hOther :
        (units other * denominator : ℤ) <
          (2 ^ 52 : ℕ) * (denominator * 2 ^ height : ℕ) := by
      exact_mod_cast hLow
    have hFactorFar :
        |((2 ^ 52 : ℕ) * (denominator * 2 ^ height : ℕ) : ℤ) - value| =
          value - (2 ^ 52 : ℕ) * (denominator * 2 ^ height : ℕ) := by
      rw [abs_of_nonpos (by omega), neg_sub]
    have hOtherFar :
        |(units other * denominator : ℤ) - value| =
          value - units other * denominator := by
      rw [abs_of_nonpos (by omega), neg_sub]
    rw [hFactorFar] at hCloser
    rw [hOtherFar]
    exact ⟨by omega, fun hSame _ => by omega⟩
  · rcases exists_units_eq hScale with ⟨factor, hOther⟩
    rw [hOther, hProduct]
    refine ⟨(hNearest factor).1, fun hSame hNot => ?_⟩
    exact (hNearest factor).2 hSame fun hFactor => hNot (by rw [hFactor])

/- The upper part of a power is taken out of a multiple. -/
omit hNumerator hDenominator in
theorem mul_two_pow_add (factor low high : Nat) :
    factor * 2 ^ (low + high) = 2 ^ high * (factor * 2 ^ low) := by
  rw [Nat.pow_add, Nat.mul_comm (2 ^ low), Nat.mul_left_comm]

/-
  In the last scale a multiple is too large from half a unit
  above the largest number on.
-/
theorem multiple_lt_iff
    (hScale : scaleOfRatio numerator denominator = 2045) :
    multiple numerator denominator < 2 ^ 53 ↔
      numerator * 2 ^ 1074 <
        (2 ^ 54 - 1) * (denominator * 2 ^ 2044) := by
  have hBelow := (fits_scaleOfRatio hNumerator hDenominator).below
  have hUnit : 0 < denominator * 2 ^ 2044 :=
    Nat.mul_pos hDenominator (pow_pos Nat.two_pos _)
  have hDouble (digits : Nat) :
      denominator * 2 ^ (2045 + digits) =
        2 ^ (1 + digits) * (denominator * 2 ^ 2044) := by
    rw [show 2045 + digits = 2044 + (1 + digits) by omega,
      mul_two_pow_add]
  rw [hScale, hDouble] at hBelow
  have hTwice := hDouble 0
  rw [Nat.add_zero] at hTwice
  rw [multiple, hScale, hTwice]
  have hUpper :
      numerator * 2 ^ 1074 < 2 ^ 54 * (denominator * 2 ^ 2044) :=
    hBelow
  have hTwo : 2 ^ (1 + 0) = 2 := rfl
  rw [hTwo]
  generalize numerator * 2 ^ 1074 = value at hUpper ⊢
  generalize denominator * 2 ^ 2044 = half at hUnit hUpper ⊢
  have hSum := Nat.div_add_mod value (2 * half)
  have hRest := Nat.mod_lt value (y := 2 * half) (by omega)
  have hQuotient : value / (2 * half) < 2 ^ 53 :=
    Nat.div_lt_of_lt_mul (by omega)
  unfold roundHalfEven
  generalize value / (2 * half) = quotient at hSum hQuotient ⊢
  generalize value % (2 * half) = rest at hSum hRest ⊢
  dsimp only
  by_cases hLast : quotient = 2 ^ 53 - 1
  · subst hLast
    split <;> omega
  · have hLess : half * (quotient + 1) ≤ half * (2 ^ 53 - 1) :=
      Nat.mul_le_mul_left half (by omega)
    have hProduct : 2 * half * quotient = 2 * (half * quotient) :=
      Nat.mul_assoc ..
    rw [Nat.mul_succ] at hLess
    split <;> omega

/- A quotient is rounded to a finite number if it is below the bound. -/
theorem roundRatio_lt_iff :
    roundRatio numerator denominator < infinityBits ↔
      numerator < (2 ^ 54 - 1) * 2 ^ 970 * denominator := by
  have hFits := fits_scaleOfRatio hNumerator hDenominator
  rcases multiple_bounds hNumerator hDenominator with
    ⟨hUpper, hLower⟩
  have hUnit : 0 < denominator * 2 ^ 2044 :=
    Nat.mul_pos hDenominator (pow_pos Nat.two_pos _)
  have hBound :
      numerator < (2 ^ 54 - 1) * 2 ^ 970 * denominator ↔
        numerator * 2 ^ 1074 <
          (2 ^ 54 - 1) * (denominator * 2 ^ 2044) := by
    have hSplit :
        (2 ^ 54 - 1) * 2 ^ 970 * denominator * 2 ^ 1074 =
          (2 ^ 54 - 1) * (denominator * 2 ^ 2044) := by
      rw [show 2044 = 1074 + 970 by rfl, mul_two_pow_add,
        Nat.mul_assoc (2 ^ 54 - 1), Nat.mul_assoc (2 ^ 54 - 1),
        Nat.mul_assoc (2 ^ 970)]
    rw [← hSplit, Nat.mul_lt_mul_right (pow_pos Nat.two_pos _)]
  have hBits : infinityBits = 2047 * 2 ^ 52 := rfl
  rw [hBound, roundRatio_eq, hBits]
  rcases Nat.lt_trichotomy
      (scaleOfRatio numerator denominator) 2045 with
    hLess | hEq | hMore
  · have hValue :
        numerator * 2 ^ 1074 < 2 ^ 53 * (denominator * 2 ^ 2044) := by
      calc
        numerator * 2 ^ 1074
          < denominator *
              2 ^ (scaleOfRatio numerator denominator + 53) :=
            hFits.below
        _ ≤ denominator * 2 ^ (2044 + 53) :=
            Nat.mul_le_mul_left _
              (pow_le_pow_right₀ (by decide) (by omega))
        _ = 2 ^ 53 * (denominator * 2 ^ 2044) :=
            mul_two_pow_add ..
    refine iff_of_true (by omega) (Nat.lt_of_lt_of_le hValue ?_)
    exact Nat.mul_le_mul_right _ (by decide)
  · have hIff := multiple_lt_iff hNumerator hDenominator hEq
    rw [← hIff, hEq]
    omega
  · have hValue :
        2 ^ 54 * (denominator * 2 ^ 2044) ≤ numerator * 2 ^ 1074 := by
      calc
        2 ^ 54 * (denominator * 2 ^ 2044)
          = denominator * 2 ^ (2044 + 54) :=
            (mul_two_pow_add ..).symm
        _ ≤ denominator *
              2 ^ (scaleOfRatio numerator denominator + 52) :=
            Nat.mul_le_mul_left _
              (pow_le_pow_right₀ (by decide) (by omega))
        _ ≤ numerator * 2 ^ 1074 :=
            hFits.above.resolve_left (by omega)
    refine iff_of_false (by omega)
      (Nat.not_lt.mpr (Nat.le_trans ?_ hValue))
    exact Nat.mul_le_mul_right _ (by decide)

end Rounding

------------------------------------------------------------
-- Nearest Numbers
------------------------------------------------------------

/- Quotients are as far apart as whole numbers are in a common measure. -/
theorem abs_div_sub_div
    {unit : Nat}
    (hUnit : 0 < unit)
    (hDenominator : 0 < denominator)
    (other : Nat) :
    |(other / unit : ℚ) - numerator / denominator| =
      (|(other * denominator : ℤ) - (numerator * unit : ℕ)| : ℤ) /
        (unit * denominator : ℚ) := by
  have hLeft : (0 : ℚ) < unit := Nat.cast_pos.mpr hUnit
  have hRight : (0 : ℚ) < denominator := Nat.cast_pos.mpr hDenominator
  rw [div_sub_div _ _ hLeft.ne' hRight.ne', abs_div,
    abs_of_pos (mul_pos hLeft hRight)]
  push_cast
  rw [mul_comm (unit : ℚ) numerator]

/- A number of the other sign is further away than zero. -/
theorem abs_toRat_sub
    (x : Binary64)
    (negative : Bool)
    {value : ℚ}
    (hValue : 0 ≤ value) :
    |x.toRat - side negative * value| =
      if x.negative = negative then
        |(units x.magnitude / 2 ^ 1074 : ℚ) - value|
      else units x.magnitude / 2 ^ 1074 + value := by
  have hUnits : (0 : ℚ) ≤ units x.magnitude / 2 ^ 1074 := by positivity
  unfold toRat side
  generalize (units x.magnitude / 2 ^ 1074 : ℚ) = magnitude
    at hUnits ⊢
  have hSum : (0 : ℚ) ≤ magnitude + value := add_nonneg hUnits hValue
  cases x.negative <;> cases negative
  · simp
  · simpa using hSum
  · rw [if_pos rfl, if_neg (by decide), if_neg (by decide),
      neg_one_mul, one_mul, ← neg_add', abs_neg, abs_of_nonneg hSum]
  · rw [if_pos rfl, if_pos rfl, neg_one_mul, neg_one_mul,
      neg_sub_neg, abs_sub_comm]

section Rounding

variable (hNumerator : 0 < numerator) (hDenominator : 0 < denominator)
variable (hFinite : roundRatio numerator denominator < infinityBits)

include hNumerator hDenominator hFinite

/- What a quotient is rounded to is its multiple. -/
theorem units_roundRatio :
    units (roundRatio numerator denominator) =
        multiple numerator denominator *
          2 ^ scaleOfRatio numerator denominator ∧
      (Even (multiple numerator denominator) →
        Even (significand (roundRatio numerator denominator))) := by
  rcases multiple_bounds hNumerator hDenominator with
    ⟨hUpper, hLower⟩
  have hBits :
      roundRatio numerator denominator =
        scaleOfRatio numerator denominator * 2 ^ 52 +
          multiple numerator denominator := by
    have hMin := roundRatio_eq numerator denominator
    omega
  rw [hBits]
  exact
    ⟨units_add hUpper hLower, even_significand_add hUpper hLower⟩

/- No magnitude is nearer to a quotient than the one it is rounded to. -/
theorem roundRatio_nearest (other : Nat) :
    |(units (roundRatio numerator denominator) / 2 ^ 1074 : ℚ) -
        numerator / denominator| ≤
      |(units other / 2 ^ 1074 : ℚ) - numerator / denominator| ∧
    (|(units (roundRatio numerator denominator) / 2 ^ 1074 : ℚ) -
        numerator / denominator| =
      |(units other / 2 ^ 1074 : ℚ) - numerator / denominator| →
        units other ≠ units (roundRatio numerator denominator) →
          Even (significand (roundRatio numerator denominator))) := by
  rcases units_roundRatio hNumerator hDenominator hFinite with
    ⟨hUnits, hEven⟩
  rcases multiple_nearest hNumerator hDenominator other with
    ⟨hNearest, hTie⟩
  rw [← hUnits] at hNearest hTie
  have hPower : 0 < 2 ^ 1074 := pow_pos Nat.two_pos _
  have hCast : ((2 ^ 1074 : ℕ) : ℚ) = 2 ^ 1074 := by
    rw [Nat.cast_pow, Nat.cast_ofNat]
  rw [← hCast]
  generalize 2 ^ 1074 = unit at hPower hNearest hTie ⊢
  have hMeasure : (0 : ℚ) < unit * denominator :=
    mul_pos (Nat.cast_pos.mpr hPower) (Nat.cast_pos.mpr hDenominator)
  rw [abs_div_sub_div hPower hDenominator,
    abs_div_sub_div hPower hDenominator,
    div_le_div_iff_of_pos_right hMeasure,
    div_left_inj' hMeasure.ne', Int.cast_le, Int.cast_inj]
  exact
    ⟨hNearest, fun hSame hOther => hEven (hTie hSame hOther)⟩

/-
  A quotient that is rounded to a finite number is rounded
  to the nearest one, whatever the sign.
-/
theorem isNearest_roundRatio (negative : Bool) :
    IsNearest ⟨negative, roundRatio numerator denominator⟩
      (side negative * (numerator / denominator)) := by
  have hNearest :=
    roundRatio_nearest hNumerator hDenominator hFinite
  have hQuotient : (0 : ℚ) ≤ numerator / denominator := by positivity
  -- A number of the other sign is no nearer than zero.
  have hZero :
      |(units 0 / 2 ^ 1074 : ℚ) - numerator / denominator| =
        numerator / denominator := by
    rw [units_zero, Nat.cast_zero, zero_div, zero_sub, abs_neg,
      abs_of_nonneg hQuotient]
  have hZeroNearest := hNearest 0
  rw [hZero] at hZeroNearest
  refine
    ⟨decide_eq_true hFinite, fun other _ => ?_,
      fun other _ hOther => ?_⟩
  · rw [abs_toRat_sub _ _ hQuotient, if_pos rfl,
      abs_toRat_sub _ _ hQuotient]
    split
    · exact (hNearest other.magnitude).1
    · exact
        hZeroNearest.1.trans
          (le_add_of_nonneg_left (by positivity))
  · rw [abs_toRat_sub _ _ hQuotient, if_pos rfl,
      abs_toRat_sub _ _ hQuotient]
    split
    · rename_i hSign
      refine fun hSame =>
        (hNearest other.magnitude).2 hSame fun hUnits => hOther ?_
      rw [toRat, toRat, hUnits, hSign]
    · intro hSame
      have hLeast : (units other.magnitude / 2 ^ 1074 : ℚ) = 0 := by
        have hBound := hZeroNearest.1
        rw [hSame] at hBound
        exact
          le_antisymm (add_le_iff_nonpos_left.mp hBound)
            (by positivity)
      rw [hLeast, zero_add] at hSame
      refine hZeroNearest.2 hSame fun hUnits => hOther ?_
      rw [toRat, toRat, ← hUnits, hLeast, units_zero, Nat.cast_zero,
        zero_div, mul_zero, mul_zero]

end Rounding

/- Zero is nearest to itself. -/
theorem isNearest_zero (negative : Bool) :
    IsNearest ⟨negative, 0⟩ 0 := by
  have hZero : toRat ⟨negative, 0⟩ = 0 := by
    rw [toRat, units_zero, Nat.cast_zero, zero_div, mul_zero]
  refine
    ⟨decide_eq_true (show 0 < infinityBits by decide), fun other _ => ?_,
      fun _ _ _ _ => ⟨0, rfl⟩⟩
  rw [hZero, sub_zero, abs_zero]
  exact abs_nonneg _

------------------------------------------------------------
-- No Other Number
------------------------------------------------------------

/- Of two that are equally far away whatever is between is nearer. -/
theorem abs_sub_lt_of_between
    {left middle right value : ℚ}
    (hLeft : left < middle)
    (hRight : middle < right)
    (hSame : |left - value| = |right - value|) :
    |middle - value| < |left - value| := by
  rcases abs_eq_abs.mp hSame with hEq | hEq
  · linarith
  · rw [abs_lt, abs_of_nonpos (by linarith)]
    exact ⟨by linarith, by linarith⟩

/- How far a number is from another can be told without its sign. -/
theorem abs_toRat_sub_eq
    (x : Binary64)
    (value : ℚ) :
    |x.toRat - value| =
      |(units x.magnitude / 2 ^ 1074 : ℚ) -
        side x.negative * value| := by
  unfold toRat side
  cases x.negative
  · rw [if_neg Bool.false_ne_true, one_mul, one_mul]
  · rw [if_pos rfl, neg_one_mul, neg_one_mul, ← neg_add', abs_neg,
      sub_neg_eq_add]

/- A nearest number has no larger one of its sign beside it. -/
theorem IsNearest.magnitude_le
    {x y : Binary64}
    {value : ℚ}
    (hX : IsNearest x value)
    (hY : IsNearest y value)
    (hSign : x.negative = y.negative) :
    y.magnitude ≤ x.magnitude := by
  by_contra hLess
  rw [Nat.not_le] at hLess
  have hSame :=
    le_antisymm (hX.nearest y hY.finite) (hY.nearest x hX.finite)
  have hUnits (low high : Nat) (hLow : low < high) :
      (units low / 2 ^ 1074 : ℚ) < units high / 2 ^ 1074 := by
    have hPower : (0 : ℚ) < 2 ^ 1074 := by positivity
    rw [div_lt_div_iff_of_pos_right hPower, Nat.cast_lt]
    exact units_strictMono hLow
  have hOther : y.toRat ≠ x.toRat := by
    intro hEq
    have hSide : side x.negative ≠ 0 := by
      unfold side
      split <;> norm_num
    rw [toRat, toRat, ← hSign] at hEq
    exact (hUnits _ _ hLess).ne' (mul_left_cancel₀ hSide hEq)
  have hEvenX := hX.even y hY.finite hOther hSame
  have hEvenY := hY.even x hX.finite hOther.symm hSame.symm
  rw [even_significand_iff, Nat.even_iff] at hEvenX hEvenY
  -- Two even magnitudes have another one between them.
  have hBetween : x.magnitude + 1 < y.magnitude := by omega
  let middle : Binary64 := ⟨x.negative, x.magnitude + 1⟩
  have hFinite : middle.isFinite = true :=
    decide_eq_true
      (Nat.lt_trans hBetween (of_decide_eq_true hY.finite))
  have hFar := hX.nearest middle hFinite
  rw [abs_toRat_sub_eq, abs_toRat_sub_eq middle] at hFar
  rw [abs_toRat_sub_eq, abs_toRat_sub_eq y, ← hSign] at hSame
  have hNear :=
    abs_sub_lt_of_between (hUnits _ _ (Nat.lt_succ_self _))
      (hUnits _ _ hBetween) hSame
  exact absurd hFar (not_le.mpr hNear)

/- Only one number of a sign is nearest. -/
theorem IsNearest.unique
    {x y : Binary64}
    {value : ℚ}
    (hX : IsNearest x value)
    (hY : IsNearest y value)
    (hSign : x.negative = y.negative) :
    x = y := by
  have hMagnitude :=
    Nat.le_antisymm (hY.magnitude_le hX hSign.symm)
      (hX.magnitude_le hY hSign)
  cases x
  cases y
  cases hSign
  cases hMagnitude
  rfl

------------------------------------------------------------
-- Decimals
------------------------------------------------------------

variable {digits : Nat}

theorem decimalRatio_div
    (digits : Nat)
    (exponent : Int) :
    ((decimalRatio digits exponent).1 /
        (decimalRatio digits exponent).2 : ℚ) =
      digits * 10 ^ exponent := by
  cases exponent with
  | ofNat e =>
      rw [decimalRatio, Nat.cast_mul, Nat.cast_pow, Nat.cast_one,
        div_one, Int.ofNat_eq_natCast, zpow_natCast]
      rfl
  | negSucc e =>
      rw [decimalRatio, Nat.cast_pow, zpow_negSucc, div_eq_mul_inv]
      rfl

/- Digits with an exponent are infinite from a bound on. -/
theorem ofDecimal_lt_iff
    (digits : Nat)
    (exponent : Int) :
    ofDecimal digits exponent < infinityBits ↔
      (digits * 10 ^ exponent : ℚ) < overflow := by
  rcases Nat.eq_zero_or_pos digits with rfl | hDigits
  · rw [Nat.cast_zero, zero_mul]
    refine iff_of_true ?_ ?_
    · rw [ofDecimal.eq_def, if_pos rfl]
      decide
    · rw [overflow]
      norm_num
  · rcases decimalRatio_pos hDigits exponent with
      ⟨hNumerator, hDenominator⟩
    have hCast :
        (((2 ^ 54 - 1) * 2 ^ 970 : ℕ) : ℚ) = overflow := by
      have hFactor : ((2 ^ 54 - 1 : ℕ) : ℚ) = 2 ^ 54 - 1 := by
        norm_num
      rw [overflow, Nat.cast_mul, hFactor, Nat.cast_pow,
        Nat.cast_ofNat]
    rw [ofDecimal_eq hDigits,
      roundRatio_lt_iff hNumerator hDenominator,
      ← decimalRatio_div,
      div_lt_iff₀ (Nat.cast_pos.mpr hDenominator), ← hCast,
      ← Nat.cast_mul, Nat.cast_lt]

/- Digits with an exponent stand for the nearest number, if it is finite. -/
theorem isNearest_ofDecimal
    {exponent : Int}
    (hFinite : ofDecimal digits exponent < infinityBits)
    (negative : Bool) :
    IsNearest ⟨negative, ofDecimal digits exponent⟩
      (side negative * (digits * 10 ^ exponent)) := by
  rcases Nat.eq_zero_or_pos digits with rfl | hDigits
  · rw [Nat.cast_zero, zero_mul, mul_zero, ofDecimal.eq_def,
      if_pos rfl]
    exact isNearest_zero negative
  · rcases decimalRatio_pos hDigits exponent with
      ⟨hNumerator, hDenominator⟩
    rw [ofDecimal_eq hDigits] at hFinite ⊢
    rw [← decimalRatio_div]
    exact
      isNearest_roundRatio hNumerator hDenominator hFinite negative

end Binary64

end ExperimentScript
