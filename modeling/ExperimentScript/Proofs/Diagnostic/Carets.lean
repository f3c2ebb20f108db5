import Mathlib.Data.List.Basic
import ExperimentScript.Diagnostic.Render

/-
  Where the carets of a block stand.

  A labelled source line begins with its number, the carets
  under it with a bar. The number is given four places or
  more, the bar stands after three, and the rest of the two
  rows is the same. So the carets are as many as the code
  points they mark, and in one run, but at least two places to
  the left of them, and further with every digit past four.

  Key definitions include:
    * `ExperimentScript.Diagnostic.gutterWidth`
    * `ExperimentScript.Diagnostic.caretShift`
    * `ExperimentScript.Diagnostic.shownRows`

  Main declarations:
    * `ExperimentScript.Diagnostic.exists_rows`
    * `ExperimentScript.Diagnostic.render_carets`
-/

namespace ExperimentScript

namespace Diagnostic

------------------------------------------------------------
-- Widths
------------------------------------------------------------

/- The places that a number takes in front of a source line. -/
def gutterWidth (line : Int) : Nat :=
  max 4 (Text.ofInt line).length

/- How far to the left of the marked code points carets stand. -/
def caretShift (line : Int) : Nat :=
  gutterWidth line - 2

theorem length_gutter (line : Int) :
    (gutter line).length = gutterWidth line := by
  simp only [gutter, Text.blanks, List.length_append,
    List.length_replicate, gutterWidth]
  omega

/- No carets stand under the code points they mark. -/
theorem two_le_caretShift (line : Int) :
    2 ≤ caretShift line := by
  rw [caretShift, gutterWidth]
  omega

------------------------------------------------------------
-- Runs
------------------------------------------------------------

/- A mark that is repeated after a text stands at those places only. -/
theorem getElem?_run_iff
    {front : Text}
    {mark : CodePoint}
    (hFront : mark ∉ front)
    (count offset : Nat) :
    (front ++ List.replicate count mark)[offset]? = some mark ↔
      front.length ≤ offset ∧ offset < front.length + count := by
  by_cases hOffset : offset < front.length
  · rw [List.getElem?_append_left hOffset]
    refine iff_of_false (fun hMark => ?_) (by omega)
    exact hFront (List.mem_of_getElem? hMark)
  · rw [List.getElem?_append_right (by omega),
      List.getElem?_replicate]
    split
    · exact iff_of_true rfl (by omega)
    · exact iff_of_false nofun (by omega)

------------------------------------------------------------
-- Rows
------------------------------------------------------------

/- The line that a block begins with. -/
def headingLine
    (color : Bool)
    (diagnostic : Diagnostic) : Text :=
  (Style.severity diagnostic.severity).apply color
      (diagnostic.severity.word ++ "[" ++ diagnostic.code ++ "]") ++
    Style.heading.apply color (": " ++ diagnostic.message)

/- The lines that a block ends with. -/
def noteLines
    (color : Bool)
    (diagnostic : Diagnostic) : List Text :=
  diagnostic.notes.map fun note =>
    "  " ++ Style.frame.apply color "=" ++ " note: " ++ note

/- The lines in front of the rows of a label. -/
def placeLines
    (color : Bool)
    (location : Location) : List Text :=
  ["  " ++ Style.frame.apply color "-->" ++ " " ++ location.toText,
    "  " ++ Style.frame.apply color "   |"]

theorem render_eq
    (color : Bool)
    (sourceOf : Text → Text)
    (diagnostic : Diagnostic) :
    render color sourceOf diagnostic =
      Text.join "\n"
        (headingLine color diagnostic ::
          diagnostic.labels.flatMap
            (labelLines color (.severity diagnostic.severity)
              sourceOf) ++
          noteLines color diagnostic) :=
  rfl

theorem labelLines_of_isEmpty
    {label : Label}
    (hEmpty : label.message = [])
    (color : Bool)
    (style : Style)
    (sourceOf : Text → Text) :
    labelLines color style sourceOf label =
      placeLines color label.location ++
        sourceLines color style sourceOf label.location := by
  rw [labelLines, hEmpty]
  exact List.append_nil _

/- What stands in front of a source line. -/
def lineLead
    (color : Bool)
    (location : Location) : Text :=
  "  " ++
    Style.frame.apply color (gutter location.firstLine ++ " |") ++ " "

/- What stands in front of the carets. -/
def caretLead
    (color : Bool)
    (location : Location) : Text :=
  "  " ++ Style.frame.apply color "   |" ++ " " ++
    Text.blanks (caretOffset location).toNat

/- The rows for a source line, if there is one to show. -/
def shownRows
    (color : Bool)
    (style : Style)
    (location : Location) : Option Text → List Text
  | none => []
  | some line =>
    [lineLead color location ++ line,
      caretLead color location ++
        style.apply color
          (List.replicate (caretCount location).toNat
            (.char '^'))]

theorem sourceLines_eq
    (color : Bool)
    (style : Style)
    (sourceOf : Text → Text)
    (location : Location) :
    sourceLines color style sourceOf location =
      shownRows color style location
        (lineAt? (sourceOf location.file) location.firstLine) := by
  rw [sourceLines]
  split
  · rename_i hNone
    rw [hNone]
    rfl
  · rename_i line hSome
    rw [hSome]
    rfl

/- The rows of a label are rows of its block. -/
theorem exists_rows
    {diagnostic : Diagnostic}
    {label : Label}
    (hLabel : label ∈ diagnostic.labels)
    (color : Bool)
    (sourceOf : Text → Text) :
    ∃ above below,
      render color sourceOf diagnostic =
        Text.join "\n"
          (above ++
            sourceLines color (.severity diagnostic.severity)
              sourceOf label.location ++
            below) := by
  have hLabelLines :
      sourceLines color (.severity diagnostic.severity) sourceOf
          label.location <:+:
        labelLines color (.severity diagnostic.severity) sourceOf
          label :=
    ⟨_, _, rfl⟩
  have hAll :
      labelLines color (.severity diagnostic.severity) sourceOf
          label <:+:
        diagnostic.labels.flatMap
          (labelLines color (.severity diagnostic.severity)
            sourceOf) :=
    List.infix_of_mem_flatten (List.mem_map_of_mem hLabel)
  rcases hLabelLines.trans hAll with ⟨front, back, hLines⟩
  refine
    ⟨headingLine color diagnostic :: front,
      back ++ noteLines color diagnostic, ?_⟩
  rw [render_eq, ← hLines]
  simp only [List.cons_append, List.append_assoc]

------------------------------------------------------------
-- Carets Without Colours
------------------------------------------------------------

theorem length_lineLead (location : Location) :
    (lineLead false location).length =
      gutterWidth location.firstLine + 5 := by
  have hBlanks : List.length ("  " : Text) = 2 := rfl
  have hBar : List.length (" |" : Text) = 2 := rfl
  have hBlank : List.length (" " : Text) = 1 := rfl
  simp only [lineLead, Style.apply, if_neg Bool.false_ne_true,
    List.length_append, length_gutter]
  omega

theorem length_caretLead (location : Location) :
    (caretLead false location).length =
      7 + (caretOffset location).toNat := by
  rw [caretLead, List.length_append, Text.blanks,
    List.length_replicate]
  rfl

theorem caret_not_mem_caretLead (location : Location) :
    .char '^' ∉ caretLead false location := by
  rw [caretLead, List.mem_append, not_or, Text.blanks,
    List.mem_replicate]
  exact ⟨by decide, fun hMem => nomatch hMem.2⟩

/-
  The carets under a source line are one run, as long as the
  labelled part of the line. Under its first code point would
  be the place where they begin, if they stood further to the
  right by the shift.
-/
theorem render_carets
    {sourceOf : Text → Text}
    {diagnostic : Diagnostic}
    {label : Label}
    {line : Text}
    (hLabel : label ∈ diagnostic.labels)
    (hShown :
      lineAt? (sourceOf label.location.file)
          label.location.firstLine =
        some line)
    (hSingle : label.location.lastLine = label.location.firstLine)
    (hFirst : 1 ≤ label.location.firstCol) :
    ∃ above below carets,
      render false sourceOf diagnostic =
          Text.join "\n"
            (above ++
              [lineLead false label.location ++ line, carets] ++
              below) ∧
        ∀ offset : Nat,
          carets[offset]? = some (.char '^') ↔
            ∃ col : Int,
              label.location.firstCol ≤ col ∧
                col ≤
                  max label.location.firstCol
                    label.location.lastCol ∧
                offset + (caretShift label.location.firstLine : Int) =
                  (lineLead false label.location).length +
                    (col - 1) := by
  rcases exists_rows hLabel false sourceOf with
    ⟨above, below, hBlock⟩
  rw [sourceLines_eq, hShown] at hBlock
  refine ⟨above, below, _, hBlock, fun offset => ?_⟩
  rw [Style.apply, if_neg Bool.false_ne_true,
    getElem?_run_iff (caret_not_mem_caretLead _), length_lineLead,
    length_caretLead, caretOffset, caretCount, if_pos hSingle.symm,
    caretShift]
  have hWidth : 4 ≤ gutterWidth label.location.firstLine := by
    rw [gutterWidth]
    omega
  constructor
  · rintro ⟨hFrom, hTo⟩
    refine ⟨(offset : Int) - 6, ?_, ?_, ?_⟩
    · omega
    · omega
    · omega
  · rintro ⟨col, hFrom, hTo, hPlace⟩
    constructor
    · omega
    · omega

/- Three carets two places to the left of the first three letters. -/
theorem render_carets_word :
    render false (fun _ => "alpha")
          ⟨.error, "E200", "odd",
            [⟨⟨"a", 1, 1, 1, 3⟩, []⟩], []⟩ =
        "error[E200]: odd\n  --> a:1:1\n     |\n     1 | alpha\n     | ^^^" ∧
      ∃ (above below : List Text) (carets : Text),
        render false (fun _ => "alpha")
              ⟨.error, "E200", "odd",
                [⟨⟨"a", 1, 1, 1, 3⟩, []⟩], []⟩ =
            Text.join "\n"
              (above ++
                [lineLead false ⟨"a", 1, 1, 1, 3⟩ ++ "alpha",
                  carets] ++
                below) ∧
          ∀ offset : Nat,
            carets[offset]? = some (.char '^') ↔
              ∃ col : Int,
                1 ≤ col ∧ col ≤ max 1 3 ∧
                  offset + (caretShift 1 : Int) =
                    (lineLead false ⟨"a", 1, 1, 1, 3⟩).length +
                      (col - 1) :=
  ⟨by decide +kernel,
    @render_carets (fun _ => "alpha")
      ⟨.error, "E200", "odd", [⟨⟨"a", 1, 1, 1, 3⟩, []⟩], []⟩
      ⟨⟨"a", 1, 1, 1, 3⟩, []⟩ "alpha" (List.mem_singleton.mpr rfl)
      (by decide +kernel) rfl (by decide)⟩

end Diagnostic

end ExperimentScript
