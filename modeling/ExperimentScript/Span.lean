import ExperimentScript.Text.Basic

/-
  Places in a script.

  Lines and columns are counted from one, columns in code
  points, and only the line feed ends a line. A span holds
  its first and its last place.

  Key definitions include:
    * `ExperimentScript.Point`
    * `ExperimentScript.Point.advance`
    * `ExperimentScript.Span`
    * `ExperimentScript.Location`
-/

------------------------------------------------------------
-- Points
------------------------------------------------------------

namespace ExperimentScript

/- A place in a script. -/
structure Point where
  line : Nat
  col : Nat
deriving DecidableEq, Repr, Inhabited

namespace Point

/- The place of the first code point of a script. -/
def start : Point := ⟨1, 1⟩

/- The place after a code point. -/
def step
    (point : Point)
    (c : CodePoint) :
    Point :=
  if c = '\n' then ⟨point.line + 1, 1⟩
  else ⟨point.line, point.col + 1⟩

/- The place after a text. -/
def advance
    (point : Point)
    (text : Text) :
    Point :=
  text.foldl step point

/-
  The last place of what ends before this place. At the
  front of a line it is that line's first place.
-/
def last (point : Point) : Point :=
  ⟨point.line, max (point.col - 1) 1⟩

end Point

------------------------------------------------------------
-- Spans
------------------------------------------------------------

/- A range of places, both ends included. -/
structure Span where
  first : Point
  last : Point
deriving DecidableEq, Repr, Inhabited

namespace Span

/- The span of a single place. -/
def single (point : Point) : Span :=
  ⟨point, point⟩

/- The span from the start of one span to the end of another. -/
def through
    (span other : Span) :
    Span :=
  ⟨span.first, other.last⟩

end Span

------------------------------------------------------------
-- Locations
------------------------------------------------------------

/-
  A stretch of a named script, as a diagnostic gives it. Its
  numbers may be any, also ones that no script has.
-/
structure Location where
  file : Text
  firstLine : Int
  firstCol : Int
  lastLine : Int
  lastCol : Int
deriving DecidableEq, Repr, Inhabited

namespace Location

/- The location of a span in a named script. -/
def ofSpan
    (file : Text)
    (span : Span) :
    Location where
  file := file
  firstLine := span.first.line
  firstCol := span.first.col
  lastLine := span.last.line
  lastCol := span.last.col

/- The location from the start of one to the end of another. -/
def through
    (location other : Location) :
    Location :=
  { location with
    lastLine := other.lastLine
    lastCol := other.lastCol }

/- The name of the script with the line and column of the start. -/
def toText (location : Location) : Text :=
  location.file ++ ":" ++ Text.ofInt location.firstLine ++
    ":" ++ Text.ofInt location.firstCol

end Location

end ExperimentScript
