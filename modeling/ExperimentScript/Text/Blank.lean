import ExperimentScript.Text.Basic

/-
  Blank space: the code points that may stand between the
  words of a script, and the ranges in which a code point
  class is tabulated.

  Key definitions include:
    * `ExperimentScript.CodePoint.inRanges`
    * `ExperimentScript.CodePoint.isBlank`
-/

------------------------------------------------------------
-- Ranges Of Code Points
------------------------------------------------------------

namespace ExperimentScript

namespace CodePoint

/- Whether the number of a code point lies in one of the ranges. -/
def inRanges
    (ranges : List (Nat × Nat))
    (c : CodePoint) :
    Bool :=
  ranges.any fun (first, last) =>
    decide (first ≤ c.toNat ∧ c.toNat ≤ last)

------------------------------------------------------------
-- Blank Space
------------------------------------------------------------

/-
  White space of Unicode 14: the separators, and the control
  characters that Unicode treats as white space or as
  paragraph and unit separators.
-/
def blankRanges : List (Nat × Nat) :=
  [(0x9, 0xD), (0x1C, 0x20), (0x85, 0x85), (0xA0, 0xA0),
   (0x1680, 0x1680), (0x2000, 0x200A), (0x2028, 0x2029),
   (0x202F, 0x202F), (0x205F, 0x205F), (0x3000, 0x3000)]

/- Whether a code point is blank space. -/
def isBlank (c : CodePoint) : Bool :=
  inRanges blankRanges c

end CodePoint

end ExperimentScript
