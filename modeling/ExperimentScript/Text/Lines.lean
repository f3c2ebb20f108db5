import ExperimentScript.Text.Basic

/-
  Lines of a text.

  A source line for display ends at any of the line and
  paragraph ends of Unicode, so this division is finer than
  the lexer's, for which only the line feed ends a line.

  Key definitions include:
    * `ExperimentScript.Text.lines`
    * `ExperimentScript.Text.lineAt?`
    * `ExperimentScript.Text.unifyLineEnds`
-/

------------------------------------------------------------
-- Line Ends
------------------------------------------------------------

namespace ExperimentScript

namespace CodePoint

/- Whether a code point ends a displayed line. -/
def isLineEnd (c : CodePoint) : Bool :=
  [0x0A, 0x0B, 0x0C, 0x0D, 0x1C, 0x1D, 0x1E,
    0x85, 0x2028, 0x2029].contains c.toNat

end CodePoint

namespace Text

------------------------------------------------------------
-- Displayed Lines
------------------------------------------------------------

/- A code point put in front of the first line. -/
def extendFirstLine
    (c : CodePoint) :
    List Text → List Text
  | [] => [[c]]
  | line :: lines => (c :: line) :: lines

/-
  The lines of a text without their ends. A carriage return
  with a line feed after it is one end, and an end at the
  end of the text starts no further line.
-/
def lines : Text → List Text
  | [] => []
  | .char '\r' :: .char '\n' :: rest => [] :: lines rest
  | c :: rest =>
    if c.isLineEnd then [] :: lines rest
    else extendFirstLine c (lines rest)

/- The line with a given number, counted from one. -/
def lineAt?
    (text : Text)
    (number : Nat) :
    Option Text :=
  match number with
  | 0 => none
  | index + 1 => text.lines[index]?

------------------------------------------------------------
-- Line Ends Of Files
------------------------------------------------------------

/- The text with every carriage return, alone or before a line feed, as a line feed. -/
def unifyLineEnds : Text → Text
  | [] => []
  | .char '\r' :: .char '\n' :: rest =>
    .char '\n' :: unifyLineEnds rest
  | .char '\r' :: rest => .char '\n' :: unifyLineEnds rest
  | c :: rest => c :: unifyLineEnds rest

end Text

end ExperimentScript
