import Mathlib.Algebra.Order.Field.Power
import Mathlib.Data.Nat.Digits.Defs
import ExperimentScript.Proofs.Lexer.Stopping
import ExperimentScript.Proofs.Number.Nearest

/-
  What the text of a number denotes.

  Digits are read in base ten, those of a fraction below the
  point, and an exponent moves the point. A number without a
  point and an exponent is read as the integer that it
  denotes, and any other one as the nearest floating-point
  number, unless that would be infinite.

  Key definitions include:
    * `ExperimentScript.Text.decimal`
    * `ExperimentScript.Text.signedDecimal`
    * `ExperimentScript.Numeral.value`
    * `ExperimentScript.Numeral.Outcome`

  Main declarations:
    * `ExperimentScript.Numeral.outcome_numberValue`
    * `ExperimentScript.Numeral.Outcome.unique`
-/

namespace ExperimentScript

------------------------------------------------------------
-- Digits In Base Ten
------------------------------------------------------------

namespace Text

variable {digits : Text}

/- The number that digits stand for in base ten. -/
def decimal (digits : Text) : Nat :=
  Nat.ofDigits 10 (digits.reverse.map fun c => c.toNat - 48)

/- The integer of the digits of a text, negative after a minus. -/
def signedDecimal (text : Text) : Int :=
  if text.head? = some '-' then
    -(decimal (text.filter CodePoint.isAsciiDigit) : Int)
  else
    decimal (text.filter CodePoint.isAsciiDigit)

theorem decimal_cons
    (c : CodePoint)
    (digits : Text) :
    decimal (c :: digits) =
      (c.toNat - 48) * 10 ^ digits.length + decimal digits := by
  rw [decimal, List.reverse_cons, List.map_append,
    Nat.ofDigits_append, List.length_map, List.length_reverse,
    List.map_singleton, Nat.ofDigits_singleton, Nat.add_comm,
    Nat.mul_comm]
  rfl

/- Digits are read as the number that they stand for. -/
theorem toNat_eq_decimal
    (hDigits : digits.AllDigits) :
    digits.toNat = digits.decimal := by
  induction digits with
  | nil => rfl
  | cons c digits ih =>
      rcases List.forall_mem_cons.mp hDigits with ⟨hFirst, hMore⟩
      have hValue : toNat [c] = c.toNat - 48 := by
        cases c with
        | surrogate offset => cases hFirst
        | char c =>
            rw [toNat, toNatBase, List.foldl_cons,
              hexValue?_of_isDigit hFirst, Nat.zero_mul, Nat.zero_add]
            rfl
      have hSplit := toNat_append [c] digits
      rw [List.singleton_append, hValue, ih hMore] at hSplit
      rw [hSplit, decimal_cons]

/- A sign and digits are read as the integer that they stand for. -/
theorem signedInteger_eq_signedDecimal
    {sign : Text}
    (hSign : sign = [] ∨ sign = "+" ∨ sign = "-")
    (hDigits : digits.AllDigits) :
    Binary64.signedInteger (sign ++ digits) =
      signedDecimal (sign ++ digits) := by
  have hFilter : digits.filter CodePoint.isAsciiDigit = digits :=
    List.filter_eq_self.mpr hDigits
  have hValue := toNat_eq_decimal hDigits
  rcases hSign with rfl | rfl | rfl
  · have hHead : digits.head? ≠ some '-' := by
      intro hMinus
      cases hDigits _ (List.mem_of_mem_head? hMinus)
    rw [List.nil_append, signedDecimal, if_neg hHead, hFilter,
      ← hValue, Binary64.signedInteger.eq_def]
    split
    · exact absurd rfl hHead
    · cases hDigits '+' (List.mem_cons_self ..)
    · rfl
  · change (digits.toNat : Int) = decimal (digits.filter _)
    rw [hFilter, hValue]
  · change -(digits.toNat : Int) = -(decimal (digits.filter _) : Int)
    rw [hFilter, hValue]

end Text

------------------------------------------------------------
-- Values Of Numbers
------------------------------------------------------------

namespace Numeral

open Binary64 (side overflow)

/- The digits after the point. -/
def below (numeral : Numeral) : Text :=
  numeral.fraction.drop 1

/- How far the point is moved. -/
def power (numeral : Numeral) : Int :=
  Text.signedDecimal (numeral.exponent.drop 1)

/- The rational number that a number is without its sign. -/
def magnitude (numeral : Numeral) : ℚ :=
  (Text.decimal numeral.whole +
      Text.decimal numeral.below / 10 ^ numeral.below.length) *
    10 ^ numeral.power

/- Whether a number is written with a minus. -/
def isNegative (numeral : Numeral) : Bool :=
  numeral.sign = "-"

/- The rational number that a number is. -/
def value (numeral : Numeral) : ℚ :=
  side numeral.isNegative * numeral.magnitude

/-
  What a number is read as: the integer that it is if it has
  neither a point nor an exponent and no more than 4300 digits,
  and else the nearest floating-point number, zero with the
  sign included, if that is finite.
-/
inductive Outcome
    (numeral : Numeral) :
    Except LexCause Value → Prop where
  | integer
      (hInteger : ∀ c ∈ (".eE" : Text), c ∉ numeral.text)
      (hDigits : numeral.whole.length ≤ 4300) :
      Outcome numeral
        (.ok (.int (Text.signedDecimal numeral.text)))
  | tooLong
      (hInteger : ∀ c ∈ (".eE" : Text), c ∉ numeral.text)
      (hDigits : 4300 < numeral.whole.length) :
      Outcome numeral (.error .integerOutOfRange)
  | float
      {x : Binary64}
      (hFloat : ∃ c ∈ (".eE" : Text), c ∈ numeral.text)
      (hRange : |numeral.value| < overflow)
      (hSign : x.negative = numeral.isNegative)
      (hNearest : x.IsNearest numeral.value) :
      Outcome numeral (.ok (.float x))
  | infinite
      (hFloat : ∃ c ∈ (".eE" : Text), c ∈ numeral.text)
      (hRange : overflow ≤ |numeral.value|) :
      Outcome numeral (.error (.floatOutOfRange numeral.text))

variable (numeral : Numeral)

------------------------------------------------------------
-- Parts And Values
------------------------------------------------------------

theorem text_ne_nil : numeral.text ≠ [] := by
  intro hNil
  simp only [text, List.append_eq_nil_iff] at hNil
  exact numeral.not_empty ⟨hNil.1.1.2, hNil.1.2⟩

theorem allDigits_below : numeral.below.AllDigits := by
  rcases numeral.fraction_form with hNone | ⟨_, -, hDigits, hSome⟩
  · rw [below, hNone]
    exact fun c hMem => absurd hMem List.not_mem_nil
  · rwa [below, hSome]

/- A point or an exponent is what makes a number no integer. -/
theorem isFloatNotation_iff :
    Lexeme.isFloatNotation numeral.text = true ↔
      ∃ c ∈ (".eE" : Text), c ∈ numeral.text := by
  simp only [Lexeme.isFloatNotation, List.any_eq_true,
    Bool.or_eq_true, beq_iff_eq]
  constructor
  · rintro ⟨c, hMem, (rfl | rfl) | rfl⟩
    · exact ⟨_, by decide, hMem⟩
    · exact ⟨_, by decide, hMem⟩
    · exact ⟨_, by decide, hMem⟩
  · rintro ⟨c, hMark, hMem⟩
    have hAll :
        ∀ mark ∈ (".eE" : Text),
          (mark = '.' ∨ mark = 'e') ∨ mark = 'E' := by
      decide
    exact ⟨c, hMem, hAll c hMark⟩

theorem magnitude_nonneg : 0 ≤ numeral.magnitude := by
  unfold magnitude
  positivity

theorem abs_value : |numeral.value| = numeral.magnitude := by
  rw [value, side]
  split
  · rw [neg_one_mul, abs_neg, abs_of_nonneg numeral.magnitude_nonneg]
  · rw [one_mul, abs_of_nonneg numeral.magnitude_nonneg]

/- The number after the mark of an exponent moves the point. -/
theorem signedInteger_exponent :
    Binary64.signedInteger (numeral.exponent.drop 1) =
      numeral.power := by
  rw [power]
  rcases numeral.exponent_form with
    hNone | ⟨mark, sign, digits, -, hSign, -, hDigits, hSome⟩
  · rw [hNone]
    rfl
  · rw [hSome]
    exact Text.signedInteger_eq_signedDecimal hSign hDigits

/- The digits on both sides of the point are those of one number. -/
theorem magnitude_eq :
    numeral.magnitude =
      Text.toNat (numeral.whole ++ numeral.below) *
        10 ^ (numeral.power - numeral.below.length) := by
  have hTen : (10 : ℚ) ≠ 0 := by norm_num
  rw [magnitude, Text.toNat_append,
    Text.toNat_eq_decimal numeral.whole_form,
    Text.toNat_eq_decimal numeral.allDigits_below,
    zpow_sub₀ hTen, zpow_natCast]
  push_cast
  field_simp

/- What is read is the number of the digits, with the point moved. -/
theorem ofNotation_text :
    Binary64.ofNotation numeral.text =
      ⟨numeral.isNegative,
        Binary64.ofDecimal
          (Text.toNat (numeral.whole ++ numeral.below))
          (numeral.power - numeral.below.length)⟩ := by
  have hParts := numeral.ofUnsignedNotation_parts
  rw [signedInteger_exponent] at hParts
  have hText :
      numeral.text =
        numeral.sign ++
          (numeral.whole ++ numeral.fraction ++ numeral.exponent) := by
    simp only [text, List.append_assoc]
  rw [isNegative, below, ← hParts]
  rcases numeral.sign_form with hSign | hSign | hSign
  · rw [ofNotation_of_unsigned hSign, hText, hSign]
    rfl
  · rw [hText, hSign]
    rfl
  · rw [hText, hSign]
    rfl

------------------------------------------------------------
-- Reading
------------------------------------------------------------

/- A number is read as what it denotes. -/
theorem outcome_numberValue :
    numeral.Outcome (Lexeme.numberValue numeral.text) := by
  have hFloat := numeral.isFloatNotation_iff
  rw [Lexeme.numberValue]
  cases hNotation : Lexeme.isFloatNotation numeral.text with
  | true =>
      rw [hNotation] at hFloat
      have hMark := hFloat.mp rfl
      have hBound :=
        Binary64.ofDecimal_lt_iff
          (Text.toNat (numeral.whole ++ numeral.below))
          (numeral.power - numeral.below.length)
      rw [← magnitude_eq, ← abs_value] at hBound
      rw [if_pos rfl, ofNotation_text]
      dsimp only
      split
      · rename_i hFinite
        have hLess := of_decide_eq_true hFinite
        refine .float hMark (hBound.mp hLess) rfl ?_
        rw [value, magnitude_eq]
        exact Binary64.isNearest_ofDecimal hLess numeral.isNegative
      · rename_i hInfinite
        refine .infinite hMark (not_lt.mp fun hLess => hInfinite ?_)
        exact decide_eq_true (hBound.mpr hLess)
  | false =>
      rw [if_neg Bool.false_ne_true,
        Lexeme.length_sub_signPart hNotation]
      rw [hNotation] at hFloat
      have hNoMark : ∀ c ∈ (".eE" : Text), c ∉ numeral.text := by
        intro c hMark hMem
        cases hFloat.mpr ⟨c, hMark, hMem⟩
      split
      · rename_i hLong
        exact .tooLong hNoMark hLong
      · rename_i hShort
        have hInteger :=
          Text.signedInteger_eq_signedDecimal numeral.sign_form
            numeral.whole_form
        rw [← (numeral.text_of_not_isFloatNotation hNotation).1]
          at hInteger
        rw [hInteger]
        exact .integer hNoMark (Nat.le_of_not_gt hShort)

/- A number with a point or an exponent is no integer. -/
theorem not_integer_and_float
    {numeral : Numeral}
    (hInteger : ∀ c ∈ (".eE" : Text), c ∉ numeral.text)
    (hFloat : ∃ c ∈ (".eE" : Text), c ∈ numeral.text) :
    False := by
  rcases hFloat with ⟨c, hMark, hMem⟩
  exact hInteger c hMark hMem

/- There is nothing else that a number can be read as. -/
theorem Outcome.unique
    {numeral : Numeral}
    {outcome other : Except LexCause Value}
    (hOutcome : numeral.Outcome outcome)
    (hOther : numeral.Outcome other) :
    outcome = other := by
  cases hOutcome with
  | integer hInteger hDigits =>
      cases hOther with
      | integer => rfl
      | tooLong _ hLong => exact absurd hDigits (Nat.not_le.mpr hLong)
      | float hFloat => exact (not_integer_and_float hInteger hFloat).elim
      | infinite hFloat => exact (not_integer_and_float hInteger hFloat).elim
  | tooLong hInteger hLong =>
      cases hOther with
      | integer _ hDigits => exact absurd hDigits (Nat.not_le.mpr hLong)
      | tooLong => rfl
      | float hFloat => exact (not_integer_and_float hInteger hFloat).elim
      | infinite hFloat => exact (not_integer_and_float hInteger hFloat).elim
  | float hFloat hRange hSign hNearest =>
      cases hOther with
      | integer hInteger => exact (not_integer_and_float hInteger hFloat).elim
      | tooLong hInteger => exact (not_integer_and_float hInteger hFloat).elim
      | float _ _ hOtherSign hOtherNearest =>
          rw [hNearest.unique hOtherNearest (hSign.trans hOtherSign.symm)]
      | infinite _ hAbove => exact absurd hRange (not_lt.mpr hAbove)
  | infinite hFloat hAbove =>
      cases hOther with
      | integer hInteger => exact (not_integer_and_float hInteger hFloat).elim
      | tooLong hInteger => exact (not_integer_and_float hInteger hFloat).elim
      | float _ hRange => exact absurd hRange (not_lt.mpr hAbove)
      | infinite => rfl

end Numeral

end ExperimentScript
