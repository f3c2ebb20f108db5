import ExperimentScript.Diagnostic
import ExperimentScript.Text.Lines

/-
  Diagnostics as blocks of text: a heading, for every label
  its place with the source line and carets under the
  labelled part, and the notes.

  Key definitions include:
    * `ExperimentScript.Style`
    * `ExperimentScript.Diagnostic.render`
-/

namespace ExperimentScript

------------------------------------------------------------
-- Styles
------------------------------------------------------------

/- The ways in which parts of a block are set off. -/
inductive Style where
  | severity (severity : Severity)
  | heading
  | frame

namespace Style

/- The terminal code that switches a style on. -/
def code : Style → Text
  | .severity .error => "\x1b[1;31m"
  | .severity .warning => "\x1b[1;33m"
  | .severity .note => "\x1b[1;36m"
  | .heading => "\x1b[1m"
  | .frame => "\x1b[1;34m"

/- The terminal code that switches all styles off. -/
def reset : Text := "\x1b[0m"

/- A text in a style, which is shown only in colour. -/
def apply
    (style : Style)
    (color : Bool)
    (text : Text) :
    Text :=
  if color then style.code ++ text ++ reset else text

end Style

------------------------------------------------------------
-- Blocks
------------------------------------------------------------

namespace Diagnostic

/- A number with blanks in front up to four places. -/
def gutter (line : Int) : Text :=
  let digits := Text.ofInt line
  Text.blanks (4 - digits.length) ++ digits

/- The line of a text with a number, counted from one. -/
def lineAt?
    (source : Text)
    (line : Int) :
    Option Text :=
  if 1 ≤ line then source.lineAt? line.toNat else none

/- How many blanks stand before the carets. -/
def caretOffset (location : Location) : Int :=
  location.firstCol - 1

/-
  How many carets stand under a location. One over several
  lines has one, under its first place.
-/
def caretCount (location : Location) : Int :=
  if location.firstLine = location.lastLine then
    max 1 (location.lastCol - location.firstCol + 1)
  else
    1

/- The source line of a label and the carets under it. -/
def sourceLines
    (color : Bool)
    (style : Style)
    (sourceOf : Text → Text)
    (location : Location) :
    List Text :=
  match lineAt? (sourceOf location.file) location.firstLine with
  | none => []
  | some line =>
    let carets :=
      List.replicate (caretCount location).toNat
        (CodePoint.char '^')
    ["  " ++
        Style.frame.apply color (gutter location.firstLine ++ " |") ++
        " " ++ line,
     "  " ++ Style.frame.apply color "   |" ++ " " ++
        Text.blanks (caretOffset location).toNat ++
        style.apply color carets]

/- The lines about one label. -/
def labelLines
    (color : Bool)
    (style : Style)
    (sourceOf : Text → Text)
    (label : Label) :
    List Text :=
  let bar := "  " ++ Style.frame.apply color "   |"
  let remark :=
    if label.message.isEmpty then []
    else [bar ++ "   " ++ style.apply color label.message]
  ["  " ++ Style.frame.apply color "-->" ++ " " ++
      label.location.toText, bar] ++
    sourceLines color style sourceOf label.location ++ remark

/-
  The block of a diagnostic. The source text of a label is
  looked up by the name of its script.
-/
def render
    (color : Bool)
    (sourceOf : Text → Text)
    (diagnostic : Diagnostic) :
    Text :=
  let style := Style.severity diagnostic.severity
  let heading :=
    style.apply color
        (diagnostic.severity.word ++ "[" ++ diagnostic.code ++ "]") ++
      Style.heading.apply color (": " ++ diagnostic.message)
  let labels :=
    diagnostic.labels.flatMap (labelLines color style sourceOf)
  let notes := diagnostic.notes.map fun note =>
    "  " ++ Style.frame.apply color "=" ++ " note: " ++ note
  Text.join "\n" (heading :: labels ++ notes)

end Diagnostic

end ExperimentScript
