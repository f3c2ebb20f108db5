import ExperimentScript.Room
import ExperimentScript.Text.Basic

/-
  Margins: runs of blanks of a width that anyone may give as
  a whole number. A negative width stands for no blanks. A
  width beyond a machine word is refused, and so is one of
  more blanks than there is room for.

  Key definitions include:
    * `ExperimentScript.WidthError`
    * `ExperimentScript.Text.margin`
-/

namespace ExperimentScript

/- Why there is no run of blanks of a width. -/
inductive WidthError where
  | outOfRange
  | tooLong
deriving DecidableEq, Repr

namespace Text

variable [Room]

/- The widths of a machine word end here, on either side of zero. -/
def widthLimit : Int := 0x8000000000000000

/- Whether a margin of a width can be made. -/
def checkWidth (width : Int) : Except WidthError Unit :=
  if width < -widthLimit ∨ widthLimit ≤ width then
    .error .outOfRange
  else if Room.blanks < width then
    .error .tooLong
  else
    .ok ()

/- The blanks of a margin. -/
def margin (width : Int) : Except WidthError Text := do
  checkWidth width
  return blanks width.toNat

end Text

end ExperimentScript
