import ExperimentScript.Lexer

/-
  Reading a JSON text into a constant.

  Blank space is only the blank, the tab, the line feed and
  the carriage return. Numbers without a finite value are
  refused, and so are integers that are too long. A name
  that occurs twice keeps its first place and takes its
  last value.

  Key definitions include:
    * `ExperimentScript.Json.Failure`
    * `ExperimentScript.Json.Reader`
    * `ExperimentScript.Json.value`
    * `ExperimentScript.Json.decode`
-/

namespace ExperimentScript

namespace Json

------------------------------------------------------------
-- Readers
------------------------------------------------------------

/- Why a text cannot be read as JSON. -/
inductive Failure where
  | notJson
  | nestedTooDeeply
deriving DecidableEq, Repr

/- A reader takes a part from the front of the text left. -/
abbrev Reader := StateT Text (Except Failure)

/- Whether a code point is blank space between JSON tokens. -/
def isBlank (c : CodePoint) : Bool :=
  c == ' ' || c == '\t' || c == '\n' || c == '\r'

/- Skips blank space. -/
def skipBlanks : Reader Unit :=
  modify fun text => text.dropWhile isBlank

/- The next code point, which is not taken. -/
def peek? : Reader (Option CodePoint) :=
  return (← get).head?

/- Takes the next code point. -/
def skip : Reader Unit :=
  modify List.tail

/- Takes a given text or fails. -/
def exactly (expected : Text) : Reader Unit := do
  let text ← get
  if expected.isPrefixOf text then
    set (text.drop expected.length)
  else
    throw .notJson

------------------------------------------------------------
-- Strings
------------------------------------------------------------

/- The character of a pair of surrogates. -/
def joinSurrogates?
    (high low : CodePoint) :
    Option CodePoint :=
  let h := high.toNat
  let l := low.toNat
  if 0xD800 ≤ h ∧ h < 0xDC00 ∧ 0xDC00 ≤ l ∧ l < 0xE000 then
    some (.ofNat (0x10000 + (h - 0xD800) * 0x400 + (l - 0xDC00)))
  else
    none

/- A code point put in front of the text of a string. -/
def withFirst
    (c : CodePoint) :
    Text × Text → Text × Text
  | (value, rest) => (c :: value, rest)

/-
  The text of a string after its opening quote and what
  follows its closing one. Two escapes that form a pair of
  surrogates give one character.
-/
def stringBody? : Text → Option (Text × Text)
  | [] => none
  | .char '"' :: rest => some ([], rest)
  | .char '\\' :: .char 'u' :: h₁ :: h₂ :: h₃ :: h₄ ::
      .char '\\' :: .char 'u' :: l₁ :: l₂ :: l₃ :: l₄ :: rest =>
    match Lexeme.hexEscape? h₁ h₂ h₃ h₄ with
    | none => none
    | some high =>
      match (Lexeme.hexEscape? l₁ l₂ l₃ l₄).bind
          (joinSurrogates? high) with
      | some c => (stringBody? rest).map (withFirst c)
      | none =>
        (stringBody? (.char '\\' :: .char 'u' ::
          l₁ :: l₂ :: l₃ :: l₄ :: rest)).map (withFirst high)
  | .char '\\' :: .char 'u' :: h₁ :: h₂ :: h₃ :: h₄ :: rest =>
    match Lexeme.hexEscape? h₁ h₂ h₃ h₄ with
    | none => none
    | some c => (stringBody? rest).map (withFirst c)
  | .char '\\' :: e :: rest =>
    match Lexeme.escape? e with
    | none => none
    | some c => (stringBody? rest).map (withFirst c)
  | c :: rest =>
    if c = '\\' ∨ c.toNat < 0x20 then none
    else (stringBody? rest).map (withFirst c)

/- A string. -/
def string : Reader Text := do
  exactly "\""
  match stringBody? (← get) with
  | some (value, rest) =>
    set rest
    return value
  | none => throw .notJson

------------------------------------------------------------
-- Numbers
------------------------------------------------------------

/- The integer digits at the front: a zero alone, or digits with no leading zero. -/
def wholePart : Text → Text
  | .char '0' :: _ => [.char '0']
  | text => text.takeWhile CodePoint.isAsciiDigit

/- The longest JSON number at the front of a text. -/
def numberPart? (text : Text) : Option Text :=
  let sign : Text := if text.head? = some '-' then "-" else []
  let afterSign := text.drop sign.length
  let whole := wholePart afterSign
  let afterWhole := afterSign.drop whole.length
  let fraction := Lexeme.fractionPart afterWhole
  if whole.isEmpty then none
  else
    some (sign ++ whole ++ fraction ++
      Lexeme.exponentPart (afterWhole.drop fraction.length))

/- A number. -/
def number : Reader Value := do
  let text ← get
  let some written := numberPart? text
    | throw .notJson
  match Lexeme.numberValue written with
  | .ok value =>
    set (text.drop written.length)
    return value
  | .error _ => throw .notJson

------------------------------------------------------------
-- Lists And Maps
------------------------------------------------------------

/-
  The items of a list after its first bracket. The fuel
  bounds the number of items.
-/
def items
    (value : Reader Value) :
    Nat → Reader (List Value)
  | 0 => throw .notJson
  | fuel + 1 => do
    skipBlanks
    let item ← value
    skipBlanks
    match ← peek? with
    | some (.char ',') =>
      skip
      return item :: (← items value fuel)
    | some (.char ']') =>
      skip
      return [item]
    | _ => throw .notJson

/- A list after its first bracket. -/
def list (value : Reader Value) : Reader Value := do
  skipBlanks
  if (← peek?) = some (.char ']') then
    skip
    return .list []
  else
    return .list (← items value (← get).length)

/-
  The fields of a map after its first brace, added to the
  fields before them. The fuel bounds the number of fields.
-/
def fields
    (value : Reader Value) :
    Nat → Fields Value → Reader (Fields Value)
  | 0, _ => throw .notJson
  | fuel + 1, before => do
    skipBlanks
    let name ← string
    skipBlanks
    exactly ":"
    skipBlanks
    let item ← value
    let after := before.set name item
    skipBlanks
    match ← peek? with
    | some (.char ',') =>
      skip
      fields value fuel after
    | some (.char '\x7d') =>
      skip
      return after
    | _ => throw .notJson

/- A map after its first brace. -/
def map (value : Reader Value) : Reader Value := do
  skipBlanks
  if (← peek?) = some (.char '\x7d') then
    skip
    return .map []
  else
    return .map (← fields value (← get).length [])

------------------------------------------------------------
-- Values
------------------------------------------------------------

/- A value in which lists and maps nest up to a given depth. -/
def value : Nat → Reader Value
  | 0 => throw .nestedTooDeeply
  | depth + 1 => do
    match ← peek? with
    | some (.char '"') => return .text (← string)
    | some (.char '[') =>
      skip
      list (value depth)
    | some (.char '\x7b') =>
      skip
      map (value depth)
    | some (.char 'n') =>
      exactly "null"
      return .null
    | some (.char 't') =>
      exactly "true"
      return .bool true
    | some (.char 'f') =>
      exactly "false"
      return .bool false
    | _ => number

/- The value of a whole JSON text. -/
def decode
    (depth : Nat)
    (text : Text) :
    Except Failure Value := do
  let reader : Reader Value := do
    skipBlanks
    let result ← value depth
    skipBlanks
    unless (← get).isEmpty do
      throw .notJson
    return result
  reader.run' text

end Json

end ExperimentScript
