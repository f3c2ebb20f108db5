import ExperimentScript.Number.Binary64
import ExperimentScript.Text.Basic

/-
  Decimal notation of floating-point numbers.

  Reading takes the nearest number. Writing takes the
  fewest digits that read back, and of those the nearest.

  Key definitions include:
    * `ExperimentScript.Binary64.ofNotation`
    * `ExperimentScript.Binary64.shortest`
    * `ExperimentScript.Binary64.toText`
-/

namespace ExperimentScript

namespace Binary64

------------------------------------------------------------
-- Reading
------------------------------------------------------------

/- The integer written with an optional sign. -/
def signedInteger : Text → Int
  | .char '-' :: digits => -(Text.toNat digits : Int)
  | .char '+' :: digits => Text.toNat digits
  | digits => Text.toNat digits

/- The number written as digits, an optional point and an optional exponent. -/
def ofUnsignedNotation (text : Text) : Nat :=
  let isMark := fun c : CodePoint => c = 'e' ∨ c = 'E'
  let mantissa := text.takeWhile fun c => !isMark c
  let exponent := signedInteger (text.drop (mantissa.length + 1))
  let whole := mantissa.takeWhile (· ≠ CodePoint.char '.')
  let fraction := mantissa.drop (whole.length + 1)
  ofDecimal (Text.toNat (whole ++ fraction))
    (exponent - fraction.length)

/- The number written in decimal notation with an optional sign. -/
def ofNotation : Text → Binary64
  | .char '-' :: rest => ⟨true, ofUnsignedNotation rest⟩
  | .char '+' :: rest => ⟨false, ofUnsignedNotation rest⟩
  | rest => ⟨false, ofUnsignedNotation rest⟩

/- The number that has a given text, where words stand for those without digits. -/
def ofText (text : Text) : Binary64 :=
  if text = "nan" then ⟨false, infinityBits + 1⟩
  else if text = "inf" then ⟨false, infinityBits⟩
  else if text = "-inf" then ⟨true, infinityBits⟩
  else ofNotation text

------------------------------------------------------------
-- Fewest Digits
------------------------------------------------------------

/- Digits of a positive number with the place of its point. -/
structure Digits where
  digits : Nat
  exponent : Int
deriving DecidableEq, Repr

/- How many decimal digits a natural number has. -/
def digitCount (n : Nat) : Nat :=
  (Nat.toDigits 10 n).length

/-
  The place of the point of a quotient: the quotient is
  below ten to this power and not below a tenth of that.
-/
def pointPlace
    (numerator denominator : Nat) :
    Int :=
  if denominator ≤ numerator then
    digitCount (numerator / denominator)
  else
    1 - (digitCount (denominator / numerator) : Int)

/- The quotient divided by a power of ten, as a quotient. -/
def scaledDown
    (numerator denominator : Nat) :
    Int → Nat × Nat
  | .ofNat e => (numerator, denominator * Nat.pow 10 e)
  | .negSucc e => (numerator * Nat.pow 10 (e + 1), denominator)

/-
  The neighbour of the number on the grid of a given number
  of digits that reads back, the nearer one if both do.
-/
def onGrid?
    (magnitude : Nat)
    (count : Nat) :
    Option Digits :=
  let (numerator, denominator) := ratio magnitude
  let exponent := pointPlace numerator denominator - count
  let (upper, lower) := scaledDown numerator denominator exponent
  let below := upper / lower
  let readsBack := fun digits : Nat =>
    decide (ofDecimal digits exponent = magnitude)
  if readsBack below && readsBack (below + 1) then
    some ⟨roundHalfEven upper lower, exponent⟩
  else if readsBack below then some ⟨below, exponent⟩
  else if readsBack (below + 1) then some ⟨below + 1, exponent⟩
  else none

/-
  The fewest digits that read back as a finite number above
  zero; seventeen always do.
-/
def shortest (magnitude : Nat) : Digits :=
  ((List.range' 1 17).findSome? (onGrid? magnitude)).getD
    ⟨(ratio magnitude).1, 0⟩

------------------------------------------------------------
-- Writing
------------------------------------------------------------

/- The digits without the zeros at their end. -/
def trimZeros (digits : Text) : Text :=
  (digits.reverse.dropWhile (· = CodePoint.char '0')).reverse

/- A run of zeros. -/
def zeros (count : Nat) : Text :=
  List.replicate count (.char '0')

/- An exponent with its sign and at least two digits. -/
def exponentText (exponent : Int) : Text :=
  let sign : CodePoint := if exponent < 0 then '-' else '+'
  let digits := Text.ofNat exponent.natAbs
  sign :: zeros (2 - digits.length) ++ digits

/-
  Digits with a point after the given number of them. The
  point always has a digit on either side.
-/
def positional
    (digits : Text)
    (place : Int) :
    Text :=
  match place with
  | .ofNat (p + 1) =>
    let padded :=
      digits ++ zeros (p + 1 - digits.length)
    let fraction := padded.drop (p + 1)
    padded.take (p + 1) ++ [.char '.'] ++
      (if fraction.isEmpty then [.char '0'] else fraction)
  | _ =>
    "0." ++ zeros place.natAbs ++ digits

/- Digits with a point after the first, and an exponent. -/
def scientific
    (digits : Text)
    (place : Int) :
    Text :=
  let fraction := digits.drop 1
  digits.take 1 ++
    (if fraction.isEmpty then [] else .char '.' :: fraction) ++
    [.char 'e'] ++ exponentText (place - 1)

/- The magnitude of a finite number above zero. -/
def positiveText (magnitude : Nat) : Text :=
  let ⟨number, exponent⟩ := shortest magnitude
  let written := Text.ofNat number
  let place := exponent + written.length
  let digits := trimZeros written
  if -4 < place ∧ place ≤ 16 then positional digits place
  else scientific digits place

/-
  The text of a number: the fewest digits that read back,
  written positionally between `1e-04` and `1e+16`.
-/
def toText (x : Binary64) : Text :=
  if x.isNan then "nan"
  else
    let sign : Text := if x.negative then "-" else []
    if !x.isFinite then sign ++ "inf"
    else if x.magnitude = 0 then sign ++ "0.0"
    else sign ++ positiveText x.magnitude

end Binary64

end ExperimentScript
