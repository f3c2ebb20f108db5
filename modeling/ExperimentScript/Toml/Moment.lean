import ExperimentScript.Text.Basic

/-
  Dates and times as TOML writes them: a date, a time of day,
  or a date with a time and perhaps an offset.

  Key definitions include:
    * `ExperimentScript.Toml.Date`
    * `ExperimentScript.Toml.Date.isValid`
    * `ExperimentScript.Toml.afterTime?`
    * `ExperimentScript.Toml.afterMoment?`
-/

namespace ExperimentScript

namespace Toml

------------------------------------------------------------
-- Calendar
------------------------------------------------------------

/- A day by its numbers in the calendar. -/
structure Date where
  year : Nat
  month : Nat
  day : Nat
deriving DecidableEq, Repr

namespace Date

/- Whether a year has a leap day. -/
def isLeapYear (year : Nat) : Bool :=
  year % 4 == 0 && (year % 100 != 0 || year % 400 == 0)

/- How many days a month has. -/
def daysIn
    (year month : Nat) :
    Nat :=
  match month with
  | 2 => if isLeapYear year then 29 else 28
  | 4 | 6 | 9 | 11 => 30
  | _ => 31

/- Whether there is such a day, from the first year on. -/
def isValid (date : Date) : Bool :=
  1 ≤ date.year && date.day ≤ daysIn date.year date.month

end Date

------------------------------------------------------------
-- Parts
------------------------------------------------------------

/- What stands after one code point of a class. -/
def after?
    (among : CodePoint → Bool) :
    Text → Option Text
  | c :: rest => if among c then some rest else none
  | [] => none

/- The number of a count of digits, in bounds, and what stands after it. -/
def numeral?
    (count low high : Nat)
    (text : Text) :
    Option (Nat × Text) :=
  let digits := text.take count
  let number := Text.toNat digits
  if digits.length = count && digits.all CodePoint.isAsciiDigit &&
      low ≤ number && number ≤ high then
    some (number, text.drop count)
  else
    none

/- What stands after the fraction of a second, if there is one. -/
def afterFraction (text : Text) : Text :=
  match text with
  | .char '.' :: c :: rest =>
    if c.isAsciiDigit then rest.dropWhile CodePoint.isAsciiDigit
    else text
  | _ => text

/- What stands after a time of day. -/
def afterTime? (text : Text) : Option Text := do
  let (_, text) ← numeral? 2 0 23 text
  let text ← after? (· == ':') text
  let (_, text) ← numeral? 2 0 59 text
  let text ← after? (· == ':') text
  let (_, text) ← numeral? 2 0 59 text
  return afterFraction text

/- What stands after an offset from universal time. -/
def afterOffset? (text : Text) : Option Text :=
  match text with
  | .char 'Z' :: rest | .char 'z' :: rest => some rest
  | _ => do
    let text ← after? (fun c => c == '+' || c == '-') text
    let (_, text) ← numeral? 2 0 23 text
    let text ← after? (· == ':') text
    let (_, text) ← numeral? 2 0 59 text
    return text

/- A date, and what stands after it. -/
def date? (text : Text) : Option (Date × Text) := do
  let (year, text) ← numeral? 4 0 9999 text
  let text ← after? (· == '-') text
  let (month, text) ← numeral? 2 1 12 text
  let text ← after? (· == '-') text
  let (day, text) ← numeral? 2 1 31 text
  return (⟨year, month, day⟩, text)

------------------------------------------------------------
-- Moments
------------------------------------------------------------

/- What stands after the time that may follow a date. -/
def afterDateTime (text : Text) : Text :=
  let time? := do
    let text ← after? (fun c => c == 'T' || c == 't' || c == ' ') text
    afterTime? text
  match time? with
  | none => text
  | some rest => (afterOffset? rest).getD rest

/-
  Whether a date or time at the front of a text is a valid
  one, and what stands after it.
-/
def afterMoment? (text : Text) : Option (Bool × Text) :=
  match date? text with
  | some (date, rest) => some (date.isValid, afterDateTime rest)
  | none => (afterTime? text).map fun rest => (true, rest)

end Toml

end ExperimentScript
