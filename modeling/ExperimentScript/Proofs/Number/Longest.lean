import ExperimentScript.Proofs.Lexer.Shortened

/-
  The longest number at the front of a text.

  Whatever number stands at the front of a text, the one that
  is taken there begins with it. So the one that is taken is
  the longest of them, and none is taken only where none
  stands.

  Key definitions include:
    * `ExperimentScript.Numeral.IsLongest`

  Main declarations:
    * `ExperimentScript.Numeral.exists_numberPart?`
    * `ExperimentScript.Lexeme.numberPart?_eq_none_iff`
    * `ExperimentScript.Lexeme.numberPart?_eq_some_iff`
-/

namespace ExperimentScript

namespace Numeral

variable (numeral : Numeral) (rest : Text)

/- A number stands at the front of a text, and no longer one does. -/
structure IsLongest
    (numeral : Numeral)
    (text : Text) : Prop where
  stands : numeral.text <+: text
  longest :
    ∀ other : Numeral,
      other.text <+: text → other.text.length ≤ numeral.text.length

------------------------------------------------------------
-- Parts That Go On
------------------------------------------------------------

/- A fraction is taken with more digits after it, if there are any. -/
theorem le_fractionPart
    (hFraction : numeral.fraction ≠ []) :
    numeral.fraction <+:
      Lexeme.fractionPart (numeral.fraction ++ rest) := by
  rcases numeral.fraction_form with
    hNone | ⟨digits, hNotEmpty, hDigits, hSome⟩
  · exact absurd hNone hFraction
  · have hTaken :
        digits ++ rest.takeWhile CodePoint.isAsciiDigit ≠ [] :=
      List.append_ne_nil_of_left_ne_nil hNotEmpty _
    rw [hSome, List.cons_append, Lexeme.fractionPart_cons,
      List.takeWhile_append_of_pos hDigits, if_pos ⟨rfl, hTaken⟩]
    exact List.cons_prefix_cons.mpr ⟨rfl, List.prefix_append _ _⟩

/- So is an exponent. -/
theorem le_exponentPart
    (hExponent : numeral.exponent ≠ []) :
    numeral.exponent <+:
      Lexeme.exponentPart (numeral.exponent ++ rest) := by
  rcases numeral.exponent_form with
    hNone | ⟨mark, sign, digits, hMark, hSign, hNotEmpty, hDigits,
      hSome⟩
  · exact absurd hNone hExponent
  · have hSignPart :
        Lexeme.signPart (sign ++ (digits ++ rest)) = sign :=
      Lexeme.signPart_append hSign
        (Lexeme.signPart_digits hDigits hNotEmpty rest)
    have hTaken :
        digits ++ rest.takeWhile CodePoint.isAsciiDigit ≠ [] :=
      List.append_ne_nil_of_left_ne_nil hNotEmpty _
    rw [hSome, List.cons_append, List.cons_append,
      Lexeme.exponentPart_cons, List.append_assoc, hSignPart,
      List.drop_left, List.takeWhile_append_of_pos hDigits,
      if_pos ⟨hMark, hTaken⟩, ← List.append_assoc, List.cons_append]
    exact List.prefix_append _ _

------------------------------------------------------------
-- Numbers That Go On
------------------------------------------------------------

/-
  The parts that are taken after a sign begin with those of the
  number. Only the last of its parts may have been taken with
  more after it.
-/
theorem le_parts :
    let afterSign :=
      numeral.whole ++
        (numeral.fraction ++ (numeral.exponent ++ rest))
    let whole := afterSign.takeWhile CodePoint.isAsciiDigit
    let afterWhole := afterSign.drop whole.length
    let fraction := Lexeme.fractionPart afterWhole
    numeral.whole <+: whole ∧
      (numeral.fraction ≠ [] → fraction ≠ []) ∧
      numeral.whole ++ numeral.fraction ++ numeral.exponent <+:
        whole ++ fraction ++
          Lexeme.exponentPart (afterWhole.drop fraction.length) := by
  intro afterSign whole afterWhole fraction
  by_cases hParts : numeral.fraction ≠ [] ∨ numeral.exponent ≠ []
  · have hWhole : whole = numeral.whole :=
      numeral.takeWhile_whole fun hFraction hExponent =>
        (not_or_intro (not_not_intro hFraction)
          (not_not_intro hExponent) hParts).elim
    have hAfterWhole :
        afterWhole =
          numeral.fraction ++ (numeral.exponent ++ rest) := by
      simp only [afterWhole, afterSign, hWhole, List.drop_left]
    rw [hWhole]
    refine ⟨List.prefix_refl _, ?_⟩
    by_cases hExponent : numeral.exponent = []
    · have hFraction :=
        hParts.resolve_right (not_not_intro hExponent)
      have hLe : numeral.fraction <+: fraction := by
        simp only [fraction, hAfterWhole]
        exact numeral.le_fractionPart _ hFraction
      rw [hExponent, List.append_nil, List.append_assoc]
      refine ⟨fun _ hNone => hFraction ?_, ?_⟩
      · exact List.prefix_nil.mp (hNone ▸ hLe)
      · exact (List.prefix_append_right_inj _).mpr
          (hLe.trans (List.prefix_append _ _))
    · have hFraction : fraction = numeral.fraction := by
        simp only [fraction, hAfterWhole]
        exact numeral.fractionPart_append fun hNone =>
          absurd hNone hExponent
      rw [hFraction, hAfterWhole, List.drop_left]
      exact
        ⟨id, (List.prefix_append_right_inj _).mpr
          (numeral.le_exponentPart rest hExponent)⟩
  · rw [not_or, not_ne_iff, not_ne_iff] at hParts
    have hWhole : numeral.whole <+: whole := by
      simp only [whole, afterSign]
      rw [List.takeWhile_append_of_pos numeral.whole_form]
      exact List.prefix_append _ _
    rw [hParts.1, hParts.2, List.append_nil, List.append_nil,
      List.append_assoc]
    exact
      ⟨hWhole, absurd rfl, hWhole.trans (List.prefix_append _ _)⟩

/- What is taken where a number stands begins with the number. -/
theorem exists_numberPart? :
    ∃ written,
      Lexeme.numberPart? (numeral.text ++ rest) = some written ∧
        numeral.text <+: written := by
  rcases numeral.le_parts rest with ⟨hWhole, hFraction, hParts⟩
  have hSign :
      Lexeme.signPart
          (numeral.sign ++ (numeral.whole ++
            (numeral.fraction ++ (numeral.exponent ++ rest)))) =
        numeral.sign :=
    Lexeme.signPart_append numeral.sign_form
      (numeral.signPart_whole _)
  simp only [Lexeme.numberPart?, text, List.append_assoc, hSign,
    List.drop_left]
  rw [if_neg]
  · refine ⟨_, rfl, (List.prefix_append_right_inj _).mpr ?_⟩
    simpa only [List.append_assoc] using hParts
  · rw [Bool.and_eq_true, List.isEmpty_iff, List.isEmpty_iff]
    rintro ⟨hNoWhole, hNoFraction⟩
    refine numeral.not_empty ⟨?_, ?_⟩
    · exact List.prefix_nil.mp (hNoWhole ▸ hWhole)
    · exact not_ne_iff.mp fun hSome => hFraction hSome hNoFraction

end Numeral

------------------------------------------------------------
-- The Longest Number
------------------------------------------------------------

namespace Lexeme

variable {text written : Text}

/- No number is taken only where none stands. -/
theorem numberPart?_eq_none_iff :
    numberPart? text = none ↔
      ∀ numeral : Numeral, ¬ numeral.text <+: text := by
  constructor
  · rintro hNone numeral ⟨rest, rfl⟩
    rcases numeral.exists_numberPart? rest with ⟨_, hSome, -⟩
    rw [hNone] at hSome
    cases hSome
  · intro hNowhere
    cases hWritten : numberPart? text with
    | none => rfl
    | some written =>
        rcases numberPart?_eq_some hWritten with ⟨numeral, rfl⟩
        exact
          absurd (isPrefix_of_numberPart? hWritten)
            (hNowhere numeral)

/- The number that is taken is the longest one. -/
theorem numberPart?_eq_some_iff :
    numberPart? text = some written ↔
      ∃ numeral : Numeral,
        numeral.text = written ∧ numeral.IsLongest text := by
  constructor
  · intro hWritten
    rcases numberPart?_eq_some hWritten with ⟨numeral, rfl⟩
    refine ⟨numeral, rfl, isPrefix_of_numberPart? hWritten, ?_⟩
    rintro other ⟨rest, rfl⟩
    rcases other.exists_numberPart? rest with ⟨_, hSome, hLe⟩
    rw [hWritten] at hSome
    cases hSome
    exact hLe.length_le
  · rintro ⟨numeral, rfl, hLongest⟩
    cases hWritten : numberPart? text with
    | none =>
        exact
          absurd hLongest.stands
            (numberPart?_eq_none_iff.mp hWritten numeral)
    | some written =>
        rcases numberPart?_eq_some hWritten with ⟨other, rfl⟩
        have hOther := isPrefix_of_numberPart? hWritten
        rcases hLongest.stands with ⟨rest, rfl⟩
        rcases numeral.exists_numberPart? rest with ⟨_, hSome, hLe⟩
        rw [hWritten] at hSome
        cases hSome
        rw [hLe.eq_of_length_le (hLongest.longest other hOther)]

end Lexeme

end ExperimentScript
