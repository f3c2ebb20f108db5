/-
  Texts as lists of Unicode code points.

  A script may spell a lone surrogate with an escape, so a
  text is not always a sequence of Unicode scalar values.
  A code point is therefore either a character or one of
  the 2048 surrogates.

  Key definitions include:
    * `ExperimentScript.CodePoint`
    * `ExperimentScript.Text`
    * `ExperimentScript.Text.join`
    * `ExperimentScript.Text.ofNat`
    * `ExperimentScript.Text.le`
-/

------------------------------------------------------------
-- Code Points
------------------------------------------------------------

namespace ExperimentScript

/-
  A Unicode code point: a character, or the surrogate `0xD800
  + offset`.
-/
inductive CodePoint where
  | char (c : Char)
  | surrogate (offset : Fin 2048)
deriving DecidableEq, Repr, Inhabited

namespace CodePoint

instance : Coe Char CodePoint := ⟨.char⟩

/- The number of a code point. -/
def toNat : CodePoint → Nat
  | .char c => c.toNat
  | .surrogate offset => 0xD800 + offset.val

/-
  The code point with a given number; numbers above `0x10FFFF`
  give U+0000.
-/
def ofNat (n : Nat) : CodePoint :=
  if h : n - 0xD800 < 2048 ∧ 0xD800 ≤ n then
    .surrogate ⟨n - 0xD800, h.1⟩
  else
    .char (Char.ofNat n)

/- The character of a code point, unless it is a surrogate. -/
def toChar? : CodePoint → Option Char
  | .char c => some c
  | .surrogate _ => none

/- Whether a code point is one of the digits `0` to `9`. -/
def isAsciiDigit : CodePoint → Bool
  | .char c => c.isDigit
  | .surrogate _ => false

/-
  Whether a code point is one of the letters `a` to `z` and
  `A` to `Z`.
-/
def isAsciiLetter : CodePoint → Bool
  | .char c => c.isAlpha
  | .surrogate _ => false

/- The lower-case form of an ASCII letter. -/
def toLower : CodePoint → CodePoint
  | .char c => .char c.toLower
  | .surrogate offset => .surrogate offset

/-
  Whether a code point may continue a name: an ASCII letter, a
  digit or `_`.
-/
def continuesName (c : CodePoint) : Bool :=
  c.isAsciiLetter || c.isAsciiDigit || c == '_'

/- The value of a hexadecimal digit, in either case. -/
def hexValue? : CodePoint → Option Nat
  | .char c =>
    if '0' ≤ c ∧ c ≤ '9' then some (c.toNat - '0'.toNat)
    else if 'a' ≤ c ∧ c ≤ 'f' then some (c.toNat - 'a'.toNat + 10)
    else if 'A' ≤ c ∧ c ≤ 'F' then some (c.toNat - 'A'.toNat + 10)
    else none
  | .surrogate _ => none

end CodePoint

------------------------------------------------------------
-- Texts
------------------------------------------------------------

/- A text is a list of code points. -/
abbrev Text := List CodePoint

namespace Text

/- The text of a string of characters. -/
def ofString (s : String) : Text :=
  s.toList.map CodePoint.char

instance : Coe String Text := ⟨ofString⟩

/- The string of a text, or nothing when the text holds a surrogate. -/
def toString? (text : Text) : Option String :=
  (text.mapM CodePoint.toChar?).map String.ofList

/- The texts one after another, with a separator between neighbours. -/
def join
    (separator : Text)
    (parts : List Text) :
    Text :=
  List.intercalate separator parts

/- A text repeated a number of times. -/
def replicate
    (count : Nat)
    (text : Text) :
    Text :=
  (List.replicate count text).flatten

/- A run of blanks. -/
def blanks (count : Nat) : Text :=
  List.replicate count (.char ' ')

/- The decimal digits of a number, without leading zeros. -/
def ofNat (n : Nat) : Text :=
  (Nat.toDigits 10 n).map .char

/-
  The decimal digits of an integer after its sign, if it is
  negative.
-/
def ofInt : Int → Text
  | .ofNat n => ofNat n
  | .negSucc n => .char '-' :: ofNat (n + 1)

/-
  The number that a text of digits stands for in a base up to
  sixteen.
-/
def toNatBase
    (base : Nat)
    (digits : Text) :
    Nat :=
  digits.foldl (fun n c => n * base + c.hexValue?.getD 0) 0

/- The number that a text of decimal digits stands for. -/
def toNat (digits : Text) : Nat :=
  toNatBase 10 digits

/-
  The hexadecimal digits of a number, in lower case and padded
  with zeros.
-/
def hex
    (width : Nat)
    (n : Nat) :
    Text :=
  let digits := (Nat.toDigits 16 n).map CodePoint.char
  List.replicate (width - digits.length) (.char '0') ++ digits

/- Lexicographic order of texts by the numbers of their code points. -/
def le : Text → Text → Bool
  | [], _ => true
  | _ :: _, [] => false
  | a :: as, b :: bs =>
    if a.toNat < b.toNat then true
    else if b.toNat < a.toNat then false
    else le as bs

/- The texts in ascending order. -/
def sort (texts : List Text) : List Text :=
  texts.mergeSort le

/-
  The part of a text before the first place with a given code
  point, and the part after it, or nothing when the code point
  does not occur.
-/
def cut?
    (mark : CodePoint) :
    Text → Option (Text × Text)
  | [] => none
  | c :: rest =>
    if c = mark then some ([], rest)
    else (cut? mark rest).map fun (before, after) => (c :: before, after)

/- The parts of a text between the places with a given code point. -/
def splitOn
    (mark : CodePoint) :
    Text → List Text
  | [] => [[]]
  | c :: rest =>
    match splitOn mark rest with
    | [] => [[c]]
    | part :: parts =>
      if c = mark then [] :: part :: parts
      else (c :: part) :: parts

end Text

end ExperimentScript
