import Mathlib.Algebra.Order.Ring.Nat
import ExperimentScript.Number.Decimal
import ExperimentScript.Proofs.Number.Rounding

/-
  Decimal digits that read back.

  The number that decimal digits stand for depends on their
  value only, also where the exponent alone decides it. The
  decimal grid of seventeen digits is finer than the grid of
  the numbers, so that one of the two points next to a number
  is nearer to it than half a unit of its last place, and the
  fewest digits that read back are always found.

  Key definitions include:
    * `ExperimentScript.Binary64.decimalRatio`

  Main declarations:
    * `ExperimentScript.Binary64.ofDecimal_eq`
    * `ExperimentScript.Binary64.ofDecimal_shift`
    * `ExperimentScript.Binary64.seventeen_isSome`
    * `ExperimentScript.Binary64.ofDecimal_shortest`
-/

namespace ExperimentScript

namespace Binary64

------------------------------------------------------------
-- Decimals As Quotients
------------------------------------------------------------

/- Digits with an exponent, as a quotient. -/
def decimalRatio
    (digits : Nat) :
    Int → Nat × Nat
  | .ofNat e => (digits * 10 ^ e, 1)
  | .negSucc e => (digits, 10 ^ (e + 1))

variable {numerator denominator digits magnitude : Nat}

theorem decimalRatio_pos
    (hDigits : 0 < digits)
    (exponent : Int) :
    0 < (decimalRatio digits exponent).1 ∧
      0 < (decimalRatio digits exponent).2 := by
  have hTen : 0 < 10 := by decide
  cases exponent with
  | ofNat e =>
      exact ⟨Nat.mul_pos hDigits (Nat.pow_pos hTen), Nat.one_pos⟩
  | negSucc e => exact ⟨hDigits, Nat.pow_pos hTen⟩

/- A quotient past the largest number is infinite. -/
theorem roundRatio_of_huge
    (hDenominator : 0 < denominator)
    (hHuge : denominator * 10 ^ 311 ≤ numerator) :
    roundRatio numerator denominator = infinityBits := by
  have hNumerator : 0 < numerator :=
    Nat.lt_of_lt_of_le
      (Nat.mul_pos hDenominator (by decide +kernel)) hHuge
  have hBelow :=
    (fits_scaleOfRatio hNumerator hDenominator).below
  have hHeight :
      2047 ≤ scaleOfRatio numerator denominator := by
    refine Nat.le_of_not_lt fun hLow => ?_
    have hPower :
        2 ^ (scaleOfRatio numerator denominator + 53) ≤
          10 ^ 311 * 2 ^ 1074 :=
      Nat.le_trans
        (Nat.pow_le_pow_right (by decide)
          (Nat.add_le_add_right (Nat.le_of_lt_succ hLow) 53))
        (by decide +kernel)
    have hScaled :
        denominator * 10 ^ 311 * 2 ^ 1074 ≤
          numerator * 2 ^ 1074 :=
      Nat.mul_le_mul_right _ hHuge
    rw [Nat.mul_assoc] at hScaled
    have hUpper := Nat.mul_le_mul_left denominator hPower
    exact Nat.lt_irrefl _
      (Nat.lt_of_lt_of_le hBelow (Nat.le_trans hUpper hScaled))
  have hBits :
      infinityBits ≤
        scaleOfRatio numerator denominator * 2 ^ 52 :=
    Nat.mul_le_mul_right _ hHeight
  simp only [roundRatio]
  exact Nat.min_eq_right (Nat.le_trans hBits (Nat.le_add_right ..))

/- A quotient below half of the least number is zero. -/
theorem roundRatio_of_tiny
    (hNumerator : 0 < numerator)
    (hTiny : 2 * (numerator * 2 ^ 1074) < denominator) :
    roundRatio numerator denominator = 0 := by
  have hDenominator : 0 < denominator :=
    Nat.lt_of_le_of_lt (Nat.zero_le _) hTiny
  have hScale : scale 0 = 0 := by decide
  have hSignificand : significand 0 = 0 := by decide
  refine roundRatio_of_near (by decide) hNumerator hDenominator
    Nat.one_pos (Nat.mul_one _) rfl ?_ (.inl hScale) ?_ ?_
  · rw [hScale, Nat.pow_zero, Nat.mul_one, Nat.mul_one]
    omega
  · rw [hSignificand, hScale, Nat.zero_mul, Nat.pow_zero,
      Nat.mul_one, Nat.mul_one]
    exact Nat.add_pos_right _ hDenominator
  · rw [hSignificand, hScale, Nat.zero_mul, Nat.pow_zero,
      Nat.mul_one, Nat.mul_one, Nat.mul_zero, Nat.zero_add]
    exact hTiny

/-
  A number times a unit is below the power of ten that its
  length and the unit give. The unit is not evaluated here.
-/
theorem two_mul_lt_pow
    {unit height : Nat}
    (digits : Nat)
    (hPositive : 0 < unit)
    (hUnit : 2 * (2 * unit) ≤ 10 ^ height) :
    2 * (digits * unit) < 10 ^ (digits.log2 + height) := by
  have hUpper : digits < 2 ^ (digits.log2 + 1) :=
    Nat.lt_log2_self
  have hBase : 2 ^ digits.log2 ≤ 10 ^ digits.log2 :=
    Nat.pow_le_pow_left (by decide) _
  calc
    2 * (digits * unit)
      < 2 * (2 ^ (digits.log2 + 1) * unit) :=
        Nat.mul_lt_mul_of_pos_left
          (Nat.mul_lt_mul_of_pos_right hUpper hPositive)
          (by decide)
    _ = 2 ^ digits.log2 * (2 * (2 * unit)) := by
        rw [Nat.pow_succ]
        ac_rfl
    _ ≤ 10 ^ digits.log2 * 10 ^ height :=
        Nat.mul_le_mul hBase hUnit
    _ = 10 ^ (digits.log2 + height) :=
        (Nat.pow_add 10 digits.log2 height).symm

/-
  Digits with an exponent are rounded as the quotient that
  they are, also where the exponent alone decides.
-/
theorem ofDecimal_eq
    (hDigits : 0 < digits)
    (exponent : Int) :
    ofDecimal digits exponent =
      roundRatio (decimalRatio digits exponent).1
        (decimalRatio digits exponent).2 := by
  unfold ofDecimal
  rw [if_neg (Nat.ne_of_gt hDigits)]
  split
  · rename_i hLarge
    cases exponent with
    | ofNat e =>
        refine (roundRatio_of_huge Nat.one_pos ?_).symm
        have hExponent : 311 ≤ e := by
          have hCast : (310 : Int) < e := hLarge
          omega
        exact Nat.mul_le_mul hDigits
          (pow_le_pow_right₀ (by decide) hExponent)
    | negSucc e => omega
  split
  · rename_i hSmall
    cases exponent with
    | ofNat e =>
        have hCast : (0 : Int) ≤ Int.ofNat e := Int.natCast_nonneg e
        omega
    | negSucc e =>
        refine (roundRatio_of_tiny hDigits ?_).symm
        have hExponent : digits.log2 + 401 ≤ e + 1 := by omega
        have hPositive : 0 < 2 ^ 1074 := by
          decide +kernel
        have hUnit : 2 * (2 * 2 ^ 1074) ≤ 10 ^ 401 := by
          decide +kernel
        calc
          2 * (digits * 2 ^ 1074)
            < 10 ^ (digits.log2 + 401) :=
              two_mul_lt_pow digits hPositive hUnit
          _ ≤ 10 ^ (e + 1) :=
              Nat.pow_le_pow_right (by decide) hExponent
  · cases exponent <;> rfl

/- A zero after the digits counts as much as the exponent. -/
theorem ofDecimal_mul_ten
    (digits : Nat)
    (exponent : Int) :
    ofDecimal (digits * 10) exponent =
      ofDecimal digits (exponent + 1) := by
  by_cases hZero : digits = 0
  · simp [hZero, ofDecimal]
  have hDigits := Nat.pos_of_ne_zero hZero
  have hMore : 0 < digits * 10 := by omega
  rw [ofDecimal_eq hDigits, ofDecimal_eq hMore]
  have hLeft := decimalRatio_pos hMore exponent
  have hRight := decimalRatio_pos hDigits (exponent + 1)
  refine roundRatio_congr hLeft.1 hLeft.2 hRight.1 hRight.2 ?_
  match exponent with
  | .ofNat e =>
      change digits * 10 * 10 ^ e * 1 = digits * 10 ^ (e + 1) * 1
      rw [Nat.pow_succ]
      ac_rfl
  | .negSucc 0 =>
      change digits * 10 * 1 = digits * 10 ^ 0 * 10 ^ (0 + 1)
      omega
  | .negSucc (e + 1) =>
      change
        digits * 10 * 10 ^ (e + 1) = digits * 10 ^ (e + 1 + 1)
      rw [Nat.pow_succ _ (e + 1)]
      ac_rfl

/- Zeros after the digits count as much as the exponent. -/
theorem ofDecimal_shift
    (digits count : Nat)
    (exponent : Int) :
    ofDecimal (digits * 10 ^ count) exponent =
      ofDecimal digits (exponent + count) := by
  induction count generalizing exponent with
  | zero => simp
  | succ count ih =>
      rw [Nat.pow_succ, ← Nat.mul_assoc, ofDecimal_mul_ten, ih]
      congr 1
      omega

------------------------------------------------------------
-- The Grid Of Seventeen Digits
------------------------------------------------------------

/- The quotient of a number is its significand at its scale. -/
theorem ratio_eq (magnitude : Nat) :
    (ratio magnitude).1 * 2 ^ 1074 =
      (ratio magnitude).2 *
        (significand magnitude * 2 ^ scale magnitude) := by
  unfold ratio
  simp only [pow_eq]
  split
  · rename_i hLow
    have hSum :
        2 ^ 1074 =
          2 ^ (1074 - scale magnitude) * 2 ^ scale magnitude := by
      rw [← Nat.pow_add]
      congr 1
      omega
    dsimp only
    rw [hSum]
    ac_rfl
  · rename_i hHigh
    have hSum :
        2 ^ scale magnitude =
          2 ^ (scale magnitude - 1074) * 2 ^ 1074 := by
      rw [← Nat.pow_add]
      congr 1
      omega
    rw [hSum, Nat.one_mul, Nat.mul_assoc]

theorem ratio_pos (hMagnitude : 0 < magnitude) :
    0 < (ratio magnitude).1 ∧ 0 < (ratio magnitude).2 := by
  have hSignificand : 0 < significand magnitude := by
    unfold significand
    simp only [pow_eq]
    split
    · exact hMagnitude
    · omega
  have hTwo : ∀ e, 0 < 2 ^ e := fun e => Nat.pow_pos (by decide)
  unfold ratio
  split
  · exact ⟨hSignificand, hTwo _⟩
  · exact ⟨Nat.mul_pos hSignificand (hTwo _), Nat.one_pos⟩

/- The digits of a natural number give its size. -/
theorem digitCount_spec (hPositive : 0 < digits) :
    10 ^ (digitCount digits - 1) ≤ digits ∧
      digits < 10 ^ digitCount digits ∧
      0 < digitCount digits := by
  have hCount : 0 < digitCount digits := Nat.length_toDigits_pos
  refine ⟨?_, ?_, hCount⟩
  · by_cases hOne : digitCount digits = 1
    · rw [hOne]
      exact hPositive
    · refine Nat.le_of_not_lt fun hLess => ?_
      have hFewer :
          digitCount digits ≤ digitCount digits - 1 :=
        (Nat.length_toDigits_le_iff (by decide) (by omega)).mpr
          hLess
      omega
  · exact
      (Nat.length_toDigits_le_iff (by decide) hCount).mp
        (Nat.le_refl _)

/- Seventeen digits are at least ten to the sixteenth. -/
theorem scaledDown_ge
    (hNumerator : 0 < numerator)
    (hDenominator : 0 < denominator) :
    10 ^ 16 *
        (scaledDown numerator denominator
          (pointPlace numerator denominator - 17)).2 ≤
      (scaledDown numerator denominator
        (pointPlace numerator denominator - 17)).1 := by
  unfold pointPlace
  split
  · rename_i hLarge
    have hQuotient : 0 < numerator / denominator :=
      Nat.div_pos hLarge hDenominator
    rcases digitCount_spec hQuotient with ⟨hLower, -, hCount⟩
    generalize digitCount (numerator / denominator) = count
      at hLower hCount
    have hBound : 10 ^ (count - 1) * denominator ≤ numerator :=
      Nat.le_trans (Nat.mul_le_mul_right _ hLower)
        (Nat.div_mul_le_self ..)
    by_cases hLong : 17 ≤ count
    · obtain ⟨more, rfl⟩ : ∃ more, count = more + 17 :=
        ⟨count - 17, by omega⟩
      have hExponent :
          ((more + 17 : Nat) : Int) - 17 = Int.ofNat more := by
        rw [Int.ofNat_eq_natCast]
        omega
      rw [hExponent]
      change 10 ^ 16 * (denominator * 10 ^ more) ≤ numerator
      refine Nat.le_trans (Nat.le_of_eq ?_) hBound
      rw [show more + 17 - 1 = 16 + more by omega, Nat.pow_add]
      ac_rfl
    · obtain ⟨less, rfl⟩ : ∃ less, count = 16 - less :=
        ⟨16 - count, by omega⟩
      have hExponent :
          ((16 - less : Nat) : Int) - 17 = Int.negSucc less := by
        omega
      rw [hExponent]
      change
        10 ^ 16 * denominator ≤ numerator * 10 ^ (less + 1)
      refine Nat.le_trans (Nat.le_of_eq ?_)
        (Nat.mul_le_mul_right _ hBound)
      rw [show 16 = (16 - less - 1) + (less + 1) by omega,
        Nat.pow_add, show
          (16 - less - 1) + (less + 1) - less - 1 =
            16 - less - 1 by omega]
      ac_rfl
  · rename_i hSmall
    have hQuotient : 0 < denominator / numerator :=
      Nat.div_pos (by omega) hNumerator
    rcases digitCount_spec hQuotient with ⟨-, hUpper, -⟩
    generalize digitCount (denominator / numerator) = count
      at hUpper
    have hExponent :
        1 - (count : Int) - 17 = Int.negSucc (count + 15) := by
      omega
    rw [hExponent]
    change
      10 ^ 16 * denominator ≤ numerator * 10 ^ (count + 15 + 1)
    have hBound : denominator ≤ 10 ^ count * numerator :=
      Nat.le_of_lt
        ((Nat.div_lt_iff_lt_mul hNumerator).mp hUpper)
    refine Nat.le_trans (Nat.mul_le_mul_left _ hBound)
      (Nat.le_of_eq ?_)
    rw [show count + 15 + 1 = count + 16 by omega, Nat.pow_add]
    ac_rfl

/- Digits at an exponent and a quotient in the units of both. -/
theorem decimalRatio_mul
    (digits numerator denominator : Nat)
    (exponent : Int) :
    (decimalRatio digits exponent).1 * denominator =
        digits * (scaledDown numerator denominator exponent).2 ∧
      numerator * (decimalRatio digits exponent).2 =
        (scaledDown numerator denominator exponent).1 := by
  cases exponent with
  | ofNat e =>
      refine ⟨?_, Nat.mul_one _⟩
      change
        digits * 10 ^ e * denominator =
          digits * (denominator * 10 ^ e)
      ac_rfl
  | negSucc e => exact ⟨rfl, rfl⟩

/-
  One of two neighbours on a grid is near enough to a number,
  if the grid is fine enough for the significand.
-/
theorem near_below_or_above
    {value below gap unit significand : Nat}
    (hValue : value = significand * unit)
    (hFine : 10 ^ 16 * gap ≤ value)
    (hUnit : 0 < unit)
    (hSignificand : significand < 2 ^ 53) :
    (2 * value < 2 * below + unit ∧
        (2 ^ 52 ≤ significand → 2 ^ 52 * unit ≤ below)) ∨
      2 * (below + gap) < 2 * value + unit := by
  have hUpper : value ≤ (2 ^ 53 - 1) * unit := by
    rw [hValue]
    exact Nat.mul_le_mul_right _ (by omega)
  by_cases hNear : 2 * (below + gap) < 2 * value + unit
  · exact .inr hNear
  · refine .inl ⟨by omega, fun hNormal => ?_⟩
    by_cases hLeast : significand = 2 ^ 52
    · -- The numbers below the least of a scale are twice as dense.
      rw [hLeast] at hValue
      omega
    · have hLower : (2 ^ 52 + 1) * unit ≤ value := by
        rw [hValue]
        exact Nat.mul_le_mul_right _ (by omega)
      omega

/- Only the least scale has significands of fewer digits. -/
theorem le_significand
    (hScale : scale magnitude ≠ 0) :
    2 ^ 52 ≤ significand magnitude := by
  unfold scale at hScale
  unfold significand
  simp only [pow_eq] at *
  split
  · omega
  · omega

/-
  The quotient of a number at an exponent, together with a
  measure in which its value is told by its significand and
  the value of digits at that exponent by the digits.
-/
structure Placed
    (magnitude : Nat)
    (exponent : Int)
    (upper lower unit : Nat) : Prop where
  unit_pos : 0 < unit
  lower_pos : 0 < lower
  value_eq : upper * 2 ^ 1074 = significand magnitude * unit
  digits_eq :
    ∀ digits,
      (decimalRatio digits exponent).1 * (ratio magnitude).2 =
        digits * lower
  unit_eq :
    ∀ digits,
      (decimalRatio digits exponent).2 *
        2 ^ scale magnitude * (ratio magnitude).2 = unit

/- Every number has such a measure at every exponent. -/
theorem exists_placed
    {exponent : Int}
    {upper lower : Nat}
    (hMagnitude : 0 < magnitude)
    (hScaled :
      scaledDown (ratio magnitude).1 (ratio magnitude).2
        exponent = (upper, lower)) :
    ∃ unit, Placed magnitude exponent upper lower unit := by
  have hRatio := (ratio_pos hMagnitude).2
  have hOne := decimalRatio_pos Nat.one_pos exponent
  have hMul := fun digits =>
    decimalRatio_mul digits (ratio magnitude).1
      (ratio magnitude).2 exponent
  rw [hScaled] at hMul
  dsimp only at hMul
  refine
    ⟨(decimalRatio 1 exponent).2 * 2 ^ scale magnitude *
      (ratio magnitude).2, ?_, ?_, ?_, ?_, ?_⟩
  · exact Nat.mul_pos
      (Nat.mul_pos hOne.2 (Nat.pow_pos (by decide))) hRatio
  · have hLeft := Nat.mul_pos hOne.1 hRatio
    have hPart := (hMul 1).1
    omega
  · rw [← (hMul 1).2, Nat.mul_right_comm, ratio_eq]
    ac_rfl
  · exact fun digits => (hMul digits).1
  · intro digits
    cases exponent <;> rfl

/-
  Digits read back as a finite number if their value is near
  enough to it.
-/
theorem Placed.ofDecimal_of_near
    {exponent : Int}
    {upper lower unit : Nat}
    (hPlaced : Placed magnitude exponent upper lower unit)
    (hMagnitude : 0 < magnitude)
    (hFinite : magnitude < infinityBits)
    (digits value : Nat)
    (hDigits : 0 < digits)
    (hValue : digits * lower * 2 ^ 1074 = value)
    (hBelow : value < 2 ^ 53 * unit)
    (hAbove :
      2 ^ 52 ≤ significand magnitude → 2 ^ 52 * unit ≤ value)
    (hNear :
      2 * (significand magnitude * unit) < 2 * value + unit)
    (hFar :
      2 * value < 2 * (significand magnitude * unit) + unit) :
    ofDecimal digits exponent = magnitude := by
  rcases decimalRatio_pos hDigits exponent with
    ⟨hNumerator, hDenominator⟩
  rw [ofDecimal_eq hDigits]
  refine roundRatio_of_near hFinite hNumerator hDenominator
    (ratio_pos hMagnitude).2 ?_ (hPlaced.unit_eq digits) hBelow
    ?_ hNear hFar
  · rw [Nat.mul_right_comm, hPlaced.digits_eq, hValue]
  · by_cases hScale : scale magnitude = 0
    · exact .inl hScale
    · exact .inr (hAbove (le_significand hScale))

/-
  One of the neighbours of a number on its grid of seventeen
  digits reads back.
-/
theorem seventeen_reads
    {exponent : Int}
    {upper lower : Nat}
    (hMagnitude : 0 < magnitude)
    (hFinite : magnitude < infinityBits)
    (hExponent :
      exponent =
        pointPlace (ratio magnitude).1 (ratio magnitude).2 - 17)
    (hScaled :
      scaledDown (ratio magnitude).1 (ratio magnitude).2
        exponent = (upper, lower)) :
    ofDecimal (upper / lower) exponent = magnitude ∨
      ofDecimal (upper / lower + 1) exponent = magnitude := by
  rcases ratio_pos hMagnitude with ⟨hNumerator, hDenominator⟩
  rcases exists_placed hMagnitude hScaled with ⟨unit, hPlaced⟩
  have hFine := scaledDown_ge hNumerator hDenominator
  rw [← hExponent, hScaled] at hFine
  dsimp only at hFine
  have hLower := hPlaced.lower_pos
  have hUnit := hPlaced.unit_pos
  have hValue := hPlaced.value_eq
  have hReads := hPlaced.ofDecimal_of_near hMagnitude hFinite
  have hSignificand := significand_lt magnitude
  generalize significand magnitude = number
    at hValue hReads hSignificand
  have hMost : number * unit ≤ (2 ^ 53 - 1) * unit :=
    Nat.mul_le_mul_right _ (by omega)
  have hLeast :
      2 ^ 52 ≤ number → 2 ^ 52 * unit ≤ number * unit :=
    fun hNormal => Nat.mul_le_mul_right _ hNormal
  generalize hPower : 2 ^ 1074 = power at hValue hReads
  have hPowerPos : 0 < power := by
    rw [← hPower]
    exact pow_pos Nat.two_pos _
  have hQuotient : 0 < upper / lower :=
    Nat.div_pos (by omega) hLower
  have hBelow : upper / lower * lower * power ≤ upper * power :=
    Nat.mul_le_mul_right _ (Nat.div_mul_le_self ..)
  have hAbove :
      upper * power <
        upper / lower * lower * power + lower * power := by
    have hNext := Nat.lt_mul_div_succ upper hLower
    rw [← Nat.add_mul, ← Nat.succ_mul]
    exact Nat.mul_lt_mul_of_pos_right
      (by rw [Nat.mul_comm]; exact hNext) hPowerPos
  have hGap : 10 ^ 16 * (lower * power) ≤ upper * power := by
    rw [← Nat.mul_assoc]
    exact Nat.mul_le_mul_right _ hFine
  rcases near_below_or_above hValue hGap hUnit hSignificand with
    ⟨hNear, hHigh⟩ | hNear
  · refine .inl (hReads _ _ hQuotient rfl ?_ hHigh ?_ ?_)
    · omega
    · omega
    · omega
  · refine .inr
      (hReads _ (upper / lower * lower * power + lower * power)
        (Nat.succ_pos _) ?_ ?_ ?_ ?_ ?_)
    · rw [Nat.succ_mul, Nat.add_mul]
    · omega
    · intro hNormal
      have hHigh := hLeast hNormal
      omega
    · omega
    · omega

------------------------------------------------------------
-- Fewest Digits
------------------------------------------------------------

theorem roundHalfEven_cases (numerator denominator : Nat) :
    roundHalfEven numerator denominator =
        numerator / denominator ∨
      roundHalfEven numerator denominator =
        numerator / denominator + 1 := by
  unfold roundHalfEven
  dsimp only
  split
  · exact .inr rfl
  · exact .inl rfl

/- What is found on a grid reads back. -/
theorem ofDecimal_of_onGrid?
    {count : Nat}
    {found : Digits}
    (hFound : onGrid? magnitude count = some found) :
    ofDecimal found.digits found.exponent = magnitude := by
  unfold onGrid? at hFound
  dsimp only at hFound
  split at hFound
  · rename_i hBoth
    simp only [Bool.and_eq_true, decide_eq_true_eq] at hBoth
    cases hFound
    rcases roundHalfEven_cases
      (scaledDown (ratio magnitude).1 (ratio magnitude).2
        (pointPlace (ratio magnitude).1 (ratio magnitude).2 -
          count)).1
      (scaledDown (ratio magnitude).1 (ratio magnitude).2
        (pointPlace (ratio magnitude).1 (ratio magnitude).2 -
          count)).2 with hDown | hUp
    · simp only [hDown]
      exact hBoth.1
    · simp only [hUp]
      exact hBoth.2
  · split at hFound
    · rename_i hBelow
      cases hFound
      simpa using hBelow
    · split at hFound
      · rename_i hAbove
        cases hFound
        simpa using hAbove
      · cases hFound

/- Seventeen digits always read back. -/
theorem seventeen_isSome
    (hMagnitude : 0 < magnitude)
    (hFinite : magnitude < infinityBits) :
    (onGrid? magnitude 17).isSome = true := by
  have hReads :=
    seventeen_reads hMagnitude hFinite rfl
      (rfl : scaledDown _ _ _ = (_, _))
  unfold onGrid?
  dsimp only
  split
  · rfl
  · split
    · rfl
    · split
      · rfl
      · rename_i hBelow hAbove
        simp only [decide_eq_true_eq] at hBelow hAbove
        rcases hReads with hRead | hRead
        · exact absurd hRead hBelow
        · exact absurd hRead hAbove

/- The digits of a finite number above zero read back. -/
theorem ofDecimal_shortest
    (hMagnitude : 0 < magnitude)
    (hFinite : magnitude < infinityBits) :
    ofDecimal (shortest magnitude).digits
      (shortest magnitude).exponent = magnitude := by
  unfold shortest
  cases hFind :
      (List.range' 1 17).findSome? (onGrid? magnitude) with
  | none =>
      have hNone :=
        List.findSome?_eq_none_iff.mp hFind 17 (by decide)
      have hSome := seventeen_isSome hMagnitude hFinite
      rw [hNone] at hSome
      cases hSome
  | some found =>
      rcases List.exists_of_findSome?_eq_some hFind with
        ⟨count, -, hFound⟩
      exact ofDecimal_of_onGrid? hFound

/- The digits of a number above zero are not all zeros. -/
theorem digits_shortest_pos
    (hMagnitude : 0 < magnitude)
    (hFinite : magnitude < infinityBits) :
    0 < (shortest magnitude).digits := by
  refine Nat.pos_of_ne_zero fun hZero => ?_
  have hRead := ofDecimal_shortest hMagnitude hFinite
  rw [hZero] at hRead
  simp only [ofDecimal, if_true] at hRead
  omega

end Binary64

end ExperimentScript
