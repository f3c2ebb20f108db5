import Mathlib.Data.Int.Init
import ExperimentScript.Editor.Range
import ExperimentScript.Proofs.Diagnostic.Quoted

/-
  The report of an error is the one its diagnostic is turned
  into.

  A diagnostic may point anywhere, so turning it into a report
  can fail. That of an error in a script points into the
  script, and all numbers of the places there are in reach as
  long as the script is.

  Main declarations:
    * `ExperimentScript.Editor.Report.ofDiagnostic?_of_parse`
-/

namespace ExperimentScript

namespace Editor

theorem Position.ofInts?_natCast
    {line character : Nat}
    (hLine : line ≤ limit)
    (hCharacter : character ≤ limit) :
    ofInts? line character = some ⟨line, character⟩ := by
  rw [ofInts?, if_pos (by omega)]
  rfl

/-
  The diagnostic of an error in a script that is not longer
  than a position can tell is turned into the report of the
  error.
-/
theorem Report.ofDiagnostic?_of_parse
    {strict : Bool}
    {source : Text}
    {error : ScriptError}
    (hError : parse strict source = .error error)
    (hLength : source.length < Position.limit)
    (uri : Text) :
    ofDiagnostic? (error.diagnostic uri) = some (ofError uri error) := by
  rcases exists_between_of_parse hError with
    ⟨before, after, rfl, hStands, -, hLast⟩
  have hFirst := Point.isWithin_after (List.prefix_append before after)
  rw [← hStands.first_eq] at hFirst
  rcases hFirst with ⟨hFirstLine, hFirstCol⟩
  rcases hLast with ⟨hLastLine, hLastCol⟩
  have hStart :
      Position.ofInts? (error.span.first.line - 1)
          (error.span.first.col - 1) =
        some (Range.ofSpan error.span).start := by
    rw [← Int.natCast_pred_of_pos hFirstLine.1,
      ← Int.natCast_pred_of_pos hFirstCol.1]
    exact Position.ofInts?_natCast (by omega) (by omega)
  have hStop :
      Position.ofInts? (error.span.last.line - 1)
          error.span.last.col =
        some (Range.ofSpan error.span).stop := by
    rw [← Int.natCast_pred_of_pos hLastLine.1]
    exact Position.ofInts?_natCast (by omega) (by omega)
  have hRange :
      Range.ofLocation? (.ofSpan uri error.span) =
        some (.ofSpan error.span) := by
    simp only [Range.ofLocation?, Location.ofSpan, hStart, hStop]
    rfl
  simp only [ofDiagnostic?, ScriptError.diagnostic, hRange]
  rfl

end Editor

end ExperimentScript
