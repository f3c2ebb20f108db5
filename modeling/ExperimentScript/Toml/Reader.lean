import ExperimentScript.Lexer
import ExperimentScript.Room
import ExperimentScript.Toml.Moment
import ExperimentScript.Toml.Value

/-
  Reading the parts of a TOML document: keys, strings,
  numbers, moments, arrays and inline tables.

  Key definitions include:
    * `ExperimentScript.Toml.Failure`
    * `ExperimentScript.Toml.Reader`
    * `ExperimentScript.Toml.key`
    * `ExperimentScript.Toml.value`
    * `ExperimentScript.Toml.updateAt`
-/

namespace ExperimentScript

namespace Toml

------------------------------------------------------------
-- Readers
------------------------------------------------------------

/- Why a document cannot be read. -/
inductive Failure where
  | malformed
  | integerOutOfRange
  | nestedTooDeeply
deriving DecidableEq, Repr

/- A reader takes a part from the front of the text left. -/
abbrev Reader := StateT Text (Except Failure)

/- Fails. -/
def malformed {α : Type} : Reader α :=
  throw .malformed

/- The next code point, which is not taken. -/
def peek? : Reader (Option CodePoint) :=
  return (← get).head?

/- Takes a number of code points. -/
def skip (count : Nat) : Reader Unit :=
  modify fun text => text.drop count

/- Takes a given text if it is next. -/
def accept (expected : Text) : Reader Bool := do
  let text ← get
  if expected.isPrefixOf text then
    set (text.drop expected.length)
    return true
  else
    return false

/- Takes a given text or fails. -/
def expect (expected : Text) : Reader Unit := do
  unless ← accept expected do
    malformed

/- Takes the longest run of code points of a class. -/
def takeWhile (among : CodePoint → Bool) : Reader Text := do
  let text ← get
  let taken := text.takeWhile among
  set (text.drop taken.length)
  return taken

/- Whether a code point is blank space inside a line. -/
def isBlank (c : CodePoint) : Bool :=
  c == ' ' || c == '\t'

/- Skips blank space inside a line. -/
def skipBlanks : Reader Unit :=
  modify fun text => text.dropWhile isBlank

/- Whether a code point may stand in a comment or a string of one line. -/
def isPlain (c : CodePoint) : Bool :=
  (0x20 ≤ c.toNat && c.toNat != 0x7F) || c == '\t'

/- Skips a comment if one is next. -/
def skipComment : Reader Unit := do
  if ← accept "#" then
    let taken ← takeWhile fun c => c != '\n'
    unless taken.all isPlain do
      malformed

------------------------------------------------------------
-- Strings
------------------------------------------------------------

/- The code point that an escape of one letter stands for. -/
def escape? : CodePoint → Option CodePoint
  | .char 'b' => some '\x08'
  | .char 't' => some '\t'
  | .char 'n' => some '\n'
  | .char 'f' => some '\x0c'
  | .char 'r' => some '\r'
  | .char '"' => some '"'
  | .char '\\' => some '\\'
  | _ => none

/- A character by a given number of hexadecimal digits. -/
def hexCharacter (count : Nat) : Reader CodePoint := do
  let digits := (← get).take count
  let number := Text.toNatBase 16 digits
  if digits.length = count &&
      digits.all (fun c => c.hexValue?.isSome) &&
      (number < 0xD800 || (0xE000 ≤ number && number < 0x110000)) then
    skip count
    return .ofNat number
  else
    malformed

/-
  What an escape stands for after its backslash. In a string
  of several lines the end of a line can be escaped together
  with all blank space after it.
-/
def escape (multiline : Bool) : Reader Text := do
  match ← peek? with
  | some (.char 'u') =>
    skip 1
    return [← hexCharacter 4]
  | some (.char 'U') =>
    skip 1
    return [← hexCharacter 8]
  | some c =>
    if multiline && (isBlank c || c == '\n') then
      skipBlanks
      if (← get).isEmpty then
        return []
      expect "\n"
      modify fun text =>
        text.dropWhile fun c => isBlank c || c == '\n'
      return []
    else
      match escape? c with
      | some e =>
        skip 1
        return [e]
      | none => malformed
  | none => malformed

/-
  A string in double quotes after its opening. The fuel
  bounds the number of its code points.
-/
def basicString
    (multiline : Bool) :
    Nat → Reader Text
  | 0 => malformed
  | fuel + 1 => do
    if ← accept (if multiline then "\"\"\"" else "\"") then
      return []
    else
      match ← peek? with
      | none => malformed
      | some c =>
        skip 1
        if c == '\\' then
          let first ← escape multiline
          return first ++ (← basicString multiline fuel)
        else if isPlain c || (multiline && c == '\n') then
          return c :: (← basicString multiline fuel)
        else
          malformed

/-
  A string in single quotes after its opening. The fuel
  bounds the number of its code points.
-/
def literalString
    (multiline : Bool) :
    Nat → Reader Text
  | 0 => malformed
  | fuel + 1 => do
    if ← accept (if multiline then "'''" else "'") then
      return []
    else
      match ← peek? with
      | none => malformed
      | some c =>
        skip 1
        if isPlain c || (multiline && c == '\n') then
          return c :: (← literalString multiline fuel)
        else
          malformed

/- Up to two quotes that stand right before the closing ones. -/
def extraQuotes (quote : Text) : Reader Text := do
  if ← accept quote then
    if ← accept quote then
      return quote ++ quote
    else
      return quote
  else
    return []

/- A string of either kind, on one line or on several. -/
def string : Reader Text := do
  let fuel := (← get).length + 1
  if ← accept "\"\"\"" then
    let _ ← accept "\n"
    let body ← basicString true fuel
    return body ++ (← extraQuotes "\"")
  else if ← accept "'''" then
    let _ ← accept "\n"
    let body ← literalString true fuel
    return body ++ (← extraQuotes "'")
  else if ← accept "\"" then
    basicString false fuel
  else
    expect "'"
    literalString false fuel

------------------------------------------------------------
-- Keys
------------------------------------------------------------

/- Whether a code point may stand in a key without quotes. -/
def isBare (c : CodePoint) : Bool :=
  c.continuesName || c == '-'

/- Whether a code point can begin a key. -/
def startsKey (c : CodePoint) : Bool :=
  isBare c || c == '"' || c == '\''

/- One part of a key. -/
def keyPart : Reader Text := do
  match ← peek? with
  | some c =>
    let fuel := (← get).length + 1
    if isBare c then
      takeWhile isBare
    else if ← accept "\"" then
      basicString false fuel
    else if ← accept "'" then
      literalString false fuel
    else
      malformed
  | none => malformed

/- The parts of a key with points between them. -/
def keyParts : Nat → Reader (List Text)
  | 0 => malformed
  | fuel + 1 => do
    let first ← keyPart
    skipBlanks
    if ← accept "." then
      skipBlanks
      return first :: (← keyParts fuel)
    else
      return [first]

/- A key with the blank space after it. -/
def key : Reader (List Text) := do
  keyParts ((← get).length + 1)

------------------------------------------------------------
-- Numbers
------------------------------------------------------------

/- The longest run of digits with single underscores between them. -/
def digitRun
    (isDigit : CodePoint → Bool) :
    Text → Text
  | .char '_' :: c :: rest =>
    if isDigit c then
      .char '_' :: c :: digitRun isDigit rest
    else
      []
  | c :: rest =>
    if isDigit c then c :: digitRun isDigit rest else []
  | [] => []

/- The digits at the front of a text, the first of which is no underscore. -/
def digitsPart
    (isDigit : CodePoint → Bool)
    (text : Text) :
    Text :=
  match text with
  | c :: _ => if isDigit c then digitRun isDigit text else []
  | [] => []

/- A text without its underscores. -/
def withoutUnderscores (text : Text) : Text :=
  text.filter (· ≠ .char '_')

/- Digits in a base other than ten, with the text of the number. -/
def baseNumber?
    (text : Text) :
    Option (Text × Value) :=
  let read (base : Nat) (isDigit : CodePoint → Bool) :=
    match digitsPart isDigit (text.drop 2) with
    | [] => none
    | digits =>
      some (text.take 2 ++ digits,
        Value.int (Text.toNatBase base (withoutUnderscores digits)))
  let isBelow (base : Nat) (c : CodePoint) : Bool :=
    match c.hexValue? with
    | some digit => digit < base
    | none => false
  match text with
  | .char '0' :: .char 'x' :: _ => read 16 (isBelow 16)
  | .char '0' :: .char 'o' :: _ => read 8 (isBelow 8)
  | .char '0' :: .char 'b' :: _ => read 2 (isBelow 2)
  | _ => none

/- A point or an exponent with the digits after its mark. -/
def markedDigits
    (mark digits : Text) :
    Text :=
  match digits with
  | [] => []
  | digits => mark ++ digits

/- The fraction at the front of a text. -/
def fractionPart : Text → Text
  | .char '.' :: rest =>
    markedDigits "." (digitsPart CodePoint.isAsciiDigit rest)
  | _ => []

/- The exponent at the front of a text. -/
def exponentPart : Text → Text
  | c :: rest =>
    if c = 'e' ∨ c = 'E' then
      let sign := Lexeme.signPart rest
      markedDigits (c :: sign)
        (digitsPart CodePoint.isAsciiDigit (rest.drop sign.length))
    else
      []
  | [] => []

/- A decimal number, with its text. -/
def decimalNumber?
    (text : Text) :
    Option (Text × Except Failure Value) :=
  let sign := Lexeme.signPart text
  let afterSign := text.drop sign.length
  let whole :=
    match afterSign with
    | .char '0' :: _ => [CodePoint.char '0']
    | _ => digitsPart CodePoint.isAsciiDigit afterSign
  let afterWhole := afterSign.drop whole.length
  let fraction := fractionPart afterWhole
  let exponent := exponentPart (afterWhole.drop fraction.length)
  let written := sign ++ whole ++ fraction ++ exponent
  let plain := withoutUnderscores written
  if whole.isEmpty then none
  else if fraction.isEmpty && exponent.isEmpty then
    if plain.length - sign.length > Text.maxIntegerDigits then
      some (written, .error .integerOutOfRange)
    else
      some (written, .ok (.int (Binary64.signedInteger plain)))
  else
    some (written, .ok (.float (Binary64.ofNotation plain)))

/- The numbers that are written as words. -/
def wordNumbers : List (Text × Binary64) :=
  let infinity := Binary64.infinityBits
  [("inf", ⟨false, infinity⟩), ("+inf", ⟨false, infinity⟩),
   ("-inf", ⟨true, infinity⟩), ("nan", ⟨false, infinity + 1⟩),
   ("+nan", ⟨false, infinity + 1⟩), ("-nan", ⟨true, infinity + 1⟩)]

/- A number. -/
def number : Reader Value := do
  let text ← get
  match baseNumber? text with
  | some (written, value) =>
    skip written.length
    return value
  | none =>
    match decimalNumber? text with
    | some (written, outcome) =>
      skip written.length
      outcome
    | none =>
      match wordNumbers.find? (fun entry => entry.1.isPrefixOf text) with
      | some (written, value) =>
        skip written.length
        return .float value
      | none => malformed

/- A date, a time or a number. -/
def momentOrNumber : Reader Value := do
  let text ← get
  match afterMoment? text with
  | none => number
  | some (isValid, rest) =>
    if !isValid then
      malformed
    set rest
    return .moment (text.take (text.length - rest.length))

------------------------------------------------------------
-- Tables
------------------------------------------------------------

/-
  Changes the fields of the table under a path, which is made
  if it is missing. Where it is asked for, a list on the way
  stands for its last item.
-/
def updateAt
    (throughLists : Bool)
    (change : Fields Value → Option (Fields Value)) :
    List Text → Fields Value → Option (Fields Value)
  | [], fields => change fields
  | name :: path, fields =>
    match fields.get? name with
    | none => do
      let inner ← updateAt throughLists change path []
      return fields.set name (.map inner)
    | some (.map inner) => do
      let inner ← updateAt throughLists change path inner
      return fields.set name (.map inner)
    | some (.list items) =>
      match throughLists, items.getLast? with
      | true, some (.map inner) => do
        let inner ← updateAt throughLists change path inner
        return fields.set name (.list (items.dropLast ++ [.map inner]))
      | _, _ => none
    | some _ => none

/- Adds a field, unless there is one of its name. -/
def insertNew
    (name : Text)
    (value : Value)
    (fields : Fields Value) :
    Option (Fields Value) :=
  match fields.get? name with
  | some _ => none
  | none => some (fields ++ [(name, value)])

/- A path without its last name, and that name. -/
def parentAndName (path : List Text) : List Text × Text :=
  (path.dropLast, path.getLastD [])

------------------------------------------------------------
-- Values
------------------------------------------------------------

/- A key, a value and what is between them. -/
def keyValue (value : Reader Value) : Reader (List Text × Value) := do
  let path ← key
  expect "="
  skipBlanks
  return (path, ← value)

/- Skips blank space, ends of lines and comments inside an array. -/
def skipArrayBlanks : Nat → Reader Unit
  | 0 => return
  | fuel + 1 => do
    modify fun text =>
      text.dropWhile fun c => isBlank c || c == '\n'
    if (← peek?) = some (.char '#') then
      skipComment
      skipArrayBlanks fuel

/- The items of an array after its first bracket. -/
def arrayItems
    (value : Reader Value) :
    Nat → Reader (List Value)
  | 0 => malformed
  | fuel + 1 => do
    skipArrayBlanks ((← get).length + 1)
    if ← accept "]" then
      return []
    else
      let item ← value
      skipArrayBlanks ((← get).length + 1)
      if ← accept "]" then
        return [item]
      else
        expect ","
        return item :: (← arrayItems value fuel)

/-
  The entries of an inline table after its first brace, added
  to those before them. Tables and arrays under the frozen
  paths can no longer be changed.
-/
def tableEntries
    (value : Reader Value) :
    Nat → List (List Text) → Fields Value → Reader (Fields Value)
  | 0, _, _ => malformed
  | fuel + 1, frozen, before => do
    let (path, item) ← keyValue value
    if frozen.any (·.isPrefixOf path) then
      malformed
    let (parent, name) := parentAndName path
    match updateAt false (insertNew name item) parent before with
    | none => malformed
    | some after =>
      skipBlanks
      if ← accept "\x7d" then
        return after
      else
        expect ","
        skipBlanks
        let frozen := if item.isContainer then path :: frozen else frozen
        tableEntries value fuel frozen after

/- A value in which arrays and tables nest up to a given depth. -/
def value : Nat → Reader Value
  | 0 => throw .nestedTooDeeply
  | depth + 1 => do
    match ← peek? with
    | some (.char '"') => return .text (← string)
    | some (.char '\'') => return .text (← string)
    | some (.char '[') =>
      skip 1
      return .list (← arrayItems (value depth) ((← get).length + 1))
    | some (.char '\x7b') =>
      skip 1
      skipBlanks
      if ← accept "\x7d" then
        return .map []
      else
        let fuel := (← get).length + 1
        return .map (← tableEntries (value depth) fuel [] [])
    | _ =>
      if ← accept "true" then
        return .bool true
      else if ← accept "false" then
        return .bool false
      else
        momentOrNumber

end Toml

end ExperimentScript
