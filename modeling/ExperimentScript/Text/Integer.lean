import ExperimentScript.Text.Digit

/-
  Whole numbers as people type them: in the decimal digits
  of any alphabet, which single underscores may divide, with
  blank space around them that does not count.

  Key definitions include:
    * `ExperimentScript.Text.maxIntegerDigits`
    * `ExperimentScript.Text.toInt?`
-/

namespace ExperimentScript

namespace Text

------------------------------------------------------------
-- Blank Space Around Numbers
------------------------------------------------------------

/-
  Whether a code point may stand around a number. The control
  characters that separate units and records may not.
-/
def isPadding (c : CodePoint) : Bool :=
  c.isBlank && !(0x1C ≤ c.toNat && c.toNat ≤ 0x1F)

/- The text without what may stand around a number. -/
def trimPadding (text : Text) : Text :=
  ((text.dropWhile isPadding).reverse.dropWhile isPadding).reverse

------------------------------------------------------------
-- Numbers
------------------------------------------------------------

/- How many digits an integer may have, signs not counted. -/
def maxIntegerDigits : Nat := 4300

/- The number of some digits, of which the first counts most. -/
def ofDigits (digits : List Nat) : Nat :=
  digits.foldl (fun number digit => number * 10 + digit) 0

/- The values of the digits of a text that has nothing else. -/
def digitValues? (text : Text) : Option (List Nat) :=
  text.mapM CodePoint.decimalValue?

/-
  The number of some digits that single underscores may
  divide.
-/
def dividedNumber? (text : Text) : Option Nat := do
  let groups ← (text.splitOn '_').mapM digitValues?
  let digits := groups.flatten
  if groups.any List.isEmpty || maxIntegerDigits < digits.length then
    none
  else
    some (ofDigits digits)

/- The whole number that a text spells. -/
def toInt? (text : Text) : Option Int :=
  match trimPadding text with
  | .char '-' :: digits => (dividedNumber? digits).map fun n => -(n : Int)
  | .char '+' :: digits => (dividedNumber? digits).map Int.ofNat
  | digits => (dividedNumber? digits).map Int.ofNat

end Text

end ExperimentScript
