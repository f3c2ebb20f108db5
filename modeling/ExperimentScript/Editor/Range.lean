import ExperimentScript.Diagnostic

/-
  Places and diagnostics as editors see them: lines and
  columns counted from zero, and ranges without their end.

  Key definitions include:
    * `ExperimentScript.Editor.Range`
    * `ExperimentScript.Editor.Range.ofSpan`
    * `ExperimentScript.Editor.Range.ofLocation?`
    * `ExperimentScript.Editor.Report`
    * `ExperimentScript.Editor.Report.ofError`
    * `ExperimentScript.Editor.Report.ofDiagnostic?`
-/

namespace ExperimentScript

namespace Editor

------------------------------------------------------------
-- Ranges
------------------------------------------------------------

/- A line and a number of code points before a place in it. -/
structure Position where
  line : Nat
  character : Nat
deriving DecidableEq, Repr

/- A range of places from a first one up to the end. -/
structure Range where
  start : Position
  stop : Position
deriving DecidableEq, Repr

/- The largest number in a position. -/
def Position.limit : Int := 0x7FFFFFFF

/- The position of two numbers, which must be in reach. -/
def Position.ofInts?
    (line character : Int) :
    Option Position :=
  if 0 ≤ line ∧ line ≤ limit ∧ 0 ≤ character ∧ character ≤ limit then
    some ⟨line.toNat, character.toNat⟩
  else
    none

namespace Range

/- The empty range at the front of a document. -/
def origin : Range := ⟨⟨0, 0⟩, ⟨0, 0⟩⟩

/- The range of a span. -/
def ofSpan (span : Span) : Range where
  start := ⟨span.first.line - 1, span.first.col - 1⟩
  stop := ⟨span.last.line - 1, span.last.col⟩

/- The range of a location, if its numbers are in reach. -/
def ofLocation? (location : Location) : Option Range := do
  let start ←
    Position.ofInts? (location.firstLine - 1) (location.firstCol - 1)
  let stop ←
    Position.ofInts? (location.lastLine - 1) location.lastCol
  return ⟨start, stop⟩

end Range

------------------------------------------------------------
-- Reports
------------------------------------------------------------

/- A diagnostic of a document. -/
structure Report where
  range : Range
  severity : Severity
  code : Text
  message : Text
deriving DecidableEq, Repr

namespace Report

/-
  The report of a diagnostic at a range, with the notes after
  the message line by line.
-/
def about
    (range : Range)
    (diagnostic : Diagnostic) :
    Report where
  range := range
  severity := diagnostic.severity
  code := diagnostic.code
  message :=
    Text.join "\n"
      (("[" ++ diagnostic.code ++ "] " ++ diagnostic.message) ::
        diagnostic.notes)

/- The report of an error in a document. -/
def ofError
    (uri : Text)
    (error : ScriptError) :
    Report :=
  about (.ofSpan error.span) (error.diagnostic uri)

/-
  The report of a diagnostic. Its first label says where, if
  it has one, and must be in reach.
-/
def ofDiagnostic? (diagnostic : Diagnostic) : Option Report :=
  match diagnostic.labels with
  | [] => some (about .origin diagnostic)
  | label :: _ =>
    (Range.ofLocation? label.location).map fun range =>
      about range diagnostic

end Report

end Editor

end ExperimentScript
