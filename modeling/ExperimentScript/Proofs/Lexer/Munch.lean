import ExperimentScript.Proofs.Number.Backtracking
import ExperimentScript.Proofs.Number.Value

/-
  Where a number begins, the longest one is taken.

  What is taken is the longest text at the place that matches
  the pattern of numbers, which is also the first one found by
  trial and error; scanning goes on right after it.
  There is no such text exactly where the number is refused as
  malformed. A text that has no value is refused as well, for
  a number out of range.

  Main declarations:
    * `ExperimentScript.Lexeme.exists_isLongest_iff`
    * `ExperimentScript.Lexeme.number_of_longest`
    * `ExperimentScript.Lexeme.number_takes_longest`
-/

namespace ExperimentScript

namespace Lexeme

variable {ended : Bool}
variable {c : CodePoint}
variable {rest text written : Text}

------------------------------------------------------------
-- The Text Of A Number
------------------------------------------------------------

/- A number stands at the front of a text unless it is malformed. -/
theorem exists_isLongest_iff :
    (∃ written, Pattern.number.IsLongest text written) ↔
      number text ≠ .error .malformedNumber := by
  cases hWritten : numberPart? text with
  | none =>
      have hNowhere := Pattern.numberPart?_eq_none_iff.mp hWritten
      refine iff_of_false ?_ ?_
      · rintro ⟨written, hLongest⟩
        exact hNowhere written hLongest.stands hLongest.fits
      · rw [number, hWritten]
        exact fun hOther => hOther rfl
  | some written =>
      rcases numberPart?_eq_some_iff.mp hWritten with
        ⟨numeral, -, hLongest⟩
      refine iff_of_true ?_ fun hError => ?_
      · exact
          ⟨numeral.text, Pattern.isLongest_number_iff.mpr hLongest⟩
      · rw [number_of_isLongest hLongest, numberValue_eq_error_iff]
          at hError
        rcases hError with ⟨hCause, -⟩ | ⟨hCause, -⟩
        · cases hCause
        · cases hCause

/- The longest text that matches is that of a number, and it is read. -/
theorem number_of_longest
    (hLongest : Pattern.number.IsLongest text written) :
    ∃ (numeral : Numeral) (outcome : Except LexCause Value),
      numeral.text = written ∧ numeral.Outcome outcome ∧
        number text =
          outcome.map fun value =>
            ⟨written, some .number, some value⟩ := by
  rcases Pattern.mem_number_iff.mp hLongest.fits with ⟨numeral, rfl⟩
  have hWritten :=
    numberPart?_eq_some_iff.mpr
      ⟨numeral, rfl, Pattern.isLongest_number_iff.mp hLongest⟩
  refine ⟨numeral, _, rfl, numeral.outcome_numberValue, ?_⟩
  simp only [number, hWritten]
  cases numberValue numeral.text with
  | ok value => rfl
  | error cause => rfl

/- A number that is refused for its value is out of range. -/
theorem message_of_outcome
    {numeral : Numeral}
    {cause : LexCause}
    (hOutcome : numeral.Outcome (.error cause)) :
    ("number out of range" : Text) <+: cause.message := by
  cases hOutcome with
  | tooLong => exact List.prefix_refl _
  | infinite =>
      have hFront :
          ("number out of range: " : Text) =
            "number out of range" ++ ": " := by
        decide
      rw [LexCause.message, hFront, List.append_assoc]
      exact List.prefix_append _ _

/-
  Where a number begins the longest text that matches the
  pattern of numbers is taken, and refused as malformed where
  there is none. It is the first match by trial and error. It
  is read as what it denotes: an integer if it has neither a
  point nor an exponent and few enough digits, and else the
  nearest floating-point number, if that is finite. Scanning
  goes on after it, or stops at its place for a number out of
  range.
-/
theorem number_takes_longest
    (hAhead : numberAhead ended c rest = true)
    (point : Point) :
    ((∃ written, Pattern.number.IsLongest (c :: rest) written) ↔
      next ended c rest ≠ .error .malformedNumber) ∧
    (∀ written,
      Pattern.number.firstMatch? (c :: rest) = some written ↔
        Pattern.number.IsLongest (c :: rest) written) ∧
    ∀ written, Pattern.number.IsLongest (c :: rest) written →
      ∃ (numeral : Numeral) (outcome : Except LexCause Value),
        numeral.text = written ∧ numeral.Outcome outcome ∧
          (∀ value, outcome = .ok value →
            let lexeme : Lexeme :=
              ⟨written, some .number, some value⟩
            next ended c rest = .ok lexeme ∧
              scanFrom ended point (c :: rest) =
                (scanFrom true (point.advance written)
                  ((c :: rest).drop written.length)).push
                    point lexeme) ∧
          ∀ cause, outcome = .error cause →
            next ended c rest = .error cause ∧
              scanFrom ended point (c :: rest) =
                ⟨[], some ⟨cause, point⟩⟩ ∧
              ("number out of range" : Text) <+: cause.message := by
  have hNext := next_of_numberAhead hAhead
  rw [exists_isLongest_iff, hNext]
  refine ⟨Iff.rfl, fun _ => Pattern.firstMatch?_number_iff,
    fun written hLongest => ?_⟩
  rcases number_of_longest hLongest with
    ⟨numeral, outcome, hText, hOutcome, hNumber⟩
  refine ⟨numeral, outcome, hText, hOutcome, ?_, ?_⟩
  · rintro value rfl
    rw [hNumber] at hNext ⊢
    have hScan := scanFrom_of_next hNext point
    rcases List.exists_cons_of_ne_nil numeral.text_ne_nil with
      ⟨first, more, hFirst⟩
    rw [hText] at hFirst
    refine ⟨rfl, hScan.trans ?_⟩
    rw [hFirst]
    rfl
  · rintro cause rfl
    rw [hNumber] at hNext ⊢
    exact
      ⟨rfl, scanFrom_of_error hNext point,
        message_of_outcome hOutcome⟩

/- A mark with a sign but no digits is left for what comes next. -/
theorem number_takes_longest_mark :
    numberAhead false '5' "e+" = true ∧
      Pattern.number.IsLongest "5e+" "5" ∧
      Pattern.number.firstMatch? "5e+" = some "5" ∧
      next false '5' "e+" = .ok ⟨"5", some .number, some (.int 5)⟩ := by
  have hAhead : numberAhead false '5' "e+" = true := by decide
  have hValue : numberValue "5" = .ok (.int 5) := by rfl
  have hPart : numberPart? "5e+" = some "5" := by decide
  rcases number_takes_longest hAhead .start with ⟨-, hFirst, hTaken⟩
  have hLongest : Pattern.number.IsLongest "5e+" "5" :=
    (hFirst "5").mp ((Pattern.firstMatch?_number _).trans hPart)
  rcases hTaken "5" hLongest with
    ⟨numeral, outcome, hText, hOutcome, hOk, -⟩
  have hSame : outcome = .ok (.int 5) := by
    rw [← hValue, ← hText]
    exact hOutcome.unique numeral.outcome_numberValue
  exact
    ⟨hAhead, hLongest, (hFirst "5").mpr hLongest,
      (hOk (.int 5) hSame).1⟩

end Lexeme

end ExperimentScript
