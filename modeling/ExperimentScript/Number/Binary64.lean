/-
  Binary floating-point numbers of 64 bits.

  A number is kept as its sign and the remaining 63 bits,
  which order the magnitudes: zero, the subnormal and the
  normal numbers, infinity, and then the numbers that are
  no number. Rounding is done in exact arithmetic on
  natural numbers.

  Key definitions include:
    * `ExperimentScript.Binary64`
    * `ExperimentScript.Binary64.significand`
    * `ExperimentScript.Binary64.roundRatio`
    * `ExperimentScript.Binary64.ofDecimal`
-/

------------------------------------------------------------
-- Representation
------------------------------------------------------------

namespace ExperimentScript

/- A sign and the 63 bits of exponent and fraction. -/
structure Binary64 where
  negative : Bool
  magnitude : Nat
deriving DecidableEq, Repr, Inhabited

namespace Binary64

/- The bits of infinity; larger ones are no number. -/
def infinityBits : Nat := 2047 * Nat.pow 2 52

/- Whether a number is neither infinite nor without a value. -/
def isFinite (x : Binary64) : Bool :=
  x.magnitude < infinityBits

/- Whether the bits stand for no number. -/
def isNan (x : Binary64) : Bool :=
  infinityBits < x.magnitude

/- The integer that is scaled by a power of two. -/
def significand (magnitude : Nat) : Nat :=
  if magnitude < Nat.pow 2 52 then magnitude
  else Nat.pow 2 52 + magnitude % Nat.pow 2 52

/-
  The power of two that scales the significand, counted
  from the least one, `2 ^ -1074`.
-/
def scale (magnitude : Nat) : Nat :=
  magnitude / Nat.pow 2 52 - 1

/-
  The magnitude of a finite number as a quotient of natural
  numbers.
-/
def ratio (magnitude : Nat) : Nat × Nat :=
  if scale magnitude < 1074 then
    (significand magnitude, Nat.pow 2 (1074 - scale magnitude))
  else
    (significand magnitude * Nat.pow 2 (scale magnitude - 1074), 1)

------------------------------------------------------------
-- Rounding
------------------------------------------------------------

/- The nearest integer to a quotient; a half goes to the even one. -/
def roundHalfEven
    (numerator denominator : Nat) :
    Nat :=
  let quotient := numerator / denominator
  let rest := 2 * (numerator % denominator)
  if denominator < rest
      ∨ rest = denominator ∧ quotient % 2 = 1 then
    quotient + 1
  else
    quotient

/-
  The least scale at which a quotient has at most 53 binary
  digits, never below zero.
-/
def scaleOfRatio
    (numerator denominator : Nat) :
    Nat :=
  let scale :=
    numerator.log2 + 1074 - denominator.log2 - 52
  if numerator * Nat.pow 2 1074 <
      denominator * Nat.pow 2 (scale + 52) then
    scale - 1
  else
    scale

/-
  The bits of the number nearest to a quotient. A quotient
  half way between two numbers goes to the one with an even
  significand, and one past the largest number is infinite.
-/
def roundRatio
    (numerator denominator : Nat) :
    Nat :=
  let scale := scaleOfRatio numerator denominator
  let rounded :=
    roundHalfEven (numerator * Nat.pow 2 1074)
      (denominator * Nat.pow 2 scale)
  min (scale * Nat.pow 2 52 + rounded) infinityBits

/-
  The bits of the number nearest to `digits * 10 ^ exponent`.
  Exponents so large or so small that the outcome is
  infinite or zero whatever the digits are answered first.
-/
def ofDecimal
    (digits : Nat)
    (exponent : Int) :
    Nat :=
  if digits = 0 then 0
  else if exponent > 310 then infinityBits
  else if exponent + digits.log2 + 400 < 0 then 0
  else
    match exponent with
    | .ofNat e => roundRatio (digits * Nat.pow 10 e) 1
    | .negSucc e => roundRatio digits (Nat.pow 10 (e + 1))

end Binary64

end ExperimentScript
