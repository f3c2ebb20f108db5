import ExperimentScript.Text.Integer
import ExperimentScript.Token

/-
  Reading a script text into tokens.

  The text is cut into lexemes from the front. Each lexeme
  is the longest one of its class; blank space and comments
  are lexemes that give no token. Reading stops at the
  first place where no lexeme fits.

  Key definitions include:
    * `ExperimentScript.Lexeme`
    * `ExperimentScript.Lexeme.next`
    * `ExperimentScript.Scan`
    * `ExperimentScript.scan`
    * `ExperimentScript.tokenize`
-/

------------------------------------------------------------
-- Failures
------------------------------------------------------------

namespace ExperimentScript

/- Why no lexeme can be read at a place. -/
inductive LexCause where
  | unterminatedString
  | malformedNumber
  | floatOutOfRange (text : Text)
  | integerOutOfRange
  | unexpectedCharacter (c : CodePoint)
deriving DecidableEq, Repr

/- What a message says about a cause. -/
def LexCause.message : LexCause → Text
  | .unterminatedString => "unterminated string literal"
  | .malformedNumber => "malformed number"
  | .floatOutOfRange text => "number out of range: " ++ text
  | .integerOutOfRange => "number out of range"
  | .unexpectedCharacter c =>
    "unexpected character: " ++ Text.quoted [c]

/- A cause and the place where the lexeme would have begun. -/
structure LexError where
  cause : LexCause
  point : Point
deriving DecidableEq, Repr

------------------------------------------------------------
-- Lexemes
------------------------------------------------------------

/-
  A piece of script text: the kind of the token it gives, if
  any, and the constant it stands for.
-/
structure Lexeme where
  text : Text
  kind : Option TokenKind
  literal : Option Value

namespace Lexeme

/- A piece that gives no token. -/
def skipped (text : Text) : Lexeme :=
  ⟨text, none, none⟩

/- A piece that gives a token without a constant. -/
def plain
    (text : Text)
    (kind : TokenKind) :
    Lexeme :=
  ⟨text, some kind, none⟩

/- Blank space and comments. -/
def comment (rest : Text) : Lexeme :=
  skipped (.char '#' :: rest.takeWhile (· ≠ .char '\n'))

------------------------------------------------------------
-- Strings
------------------------------------------------------------

/- The code point that a one-letter escape stands for. -/
def escape? : CodePoint → Option CodePoint
  | .char '"' => some '"'
  | .char '\\' => some '\\'
  | .char '/' => some '/'
  | .char 'b' => some '\x08'
  | .char 'f' => some '\x0c'
  | .char 'n' => some '\n'
  | .char 'r' => some '\r'
  | .char 't' => some '\t'
  | _ => none

/- The code point with four given hexadecimal digits. -/
def hexEscape?
    (a b c d : CodePoint) :
    Option CodePoint := do
  let a ← a.hexValue?
  let b ← b.hexValue?
  let c ← c.hexValue?
  let d ← d.hexValue?
  return .ofNat (((a * 16 + b) * 16 + c) * 16 + d)

/- What was written and what it stands for, both put in front. -/
def withFront
    (written value : Text) :
    Text × Text → Text × Text
  | (moreWritten, moreValue) =>
    (written ++ moreWritten, value ++ moreValue)

/-
  The rest of a string after its opening double quote, up to
  and with the closing one, and the text it stands for. An
  escape that is not known stands for itself.
-/
def doubleQuoted? : Text → Option (Text × Text)
  | [] => none
  | .char '"' :: _ => some ([.char '"'], [])
  | .char '\\' :: .char 'u' :: h₁ :: h₂ :: h₃ :: h₄ :: rest =>
    match hexEscape? h₁ h₂ h₃ h₄ with
    | some c =>
      (doubleQuoted? rest).map
        (withFront ("\\u" ++ [h₁, h₂, h₃, h₄]) [c])
    | none =>
      (doubleQuoted? (h₁ :: h₂ :: h₃ :: h₄ :: rest)).map
        (withFront "\\u" "\\u")
  | .char '\\' :: e :: rest =>
    (doubleQuoted? rest).map
      (withFront [.char '\\', e]
        (match escape? e with
          | some c => [c]
          | none => [.char '\\', e]))
  | [.char '\\'] => none
  | c :: rest => (doubleQuoted? rest).map (withFront [c] [c])

/- A string in double quotes. -/
def doubleQuoted (rest : Text) : Except LexCause Lexeme :=
  match doubleQuoted? rest with
  | some (written, value) =>
    .ok ⟨.char '"' :: written, some .string, some (.text value)⟩
  | none => .error .unterminatedString

/- A string in single quotes, which stands for what it holds. -/
def singleQuoted (rest : Text) : Except LexCause Lexeme :=
  match rest.cut? (.char '\'') with
  | some (value, _) =>
    .ok ⟨.char '\'' :: value ++ [.char '\''],
      some .string, some (.text value)⟩
  | none => .error .unterminatedString

------------------------------------------------------------
-- Numbers
------------------------------------------------------------

/- Whether a text begins with a digit of any alphabet. -/
def digitAhead : Text → Bool
  | [] => false
  | c :: _ => c.isDigit

/- Whether a text begins with a digit, or a point and a digit. -/
def unsignedAhead : Text → Bool
  | [] => false
  | c :: rest => c.isDigit || (c == '.' && digitAhead rest)

/-
  Whether a number begins here. A sign begins one only where
  no operand has ended just before.
-/
def numberAhead
    (operandEnded : Bool)
    (c : CodePoint)
    (rest : Text) :
    Bool :=
  unsignedAhead (c :: rest) ||
    ((c == '+' || c == '-') && !operandEnded && unsignedAhead rest)

/- The sign at the front of a text. -/
def signPart : Text → Text
  | .char '+' :: _ => [.char '+']
  | .char '-' :: _ => [.char '-']
  | _ => []

/- The point with the digits after it at the front of a text. -/
def fractionPart : Text → Text
  | .char '.' :: rest =>
    match rest.takeWhile CodePoint.isAsciiDigit with
    | [] => []
    | digits => .char '.' :: digits
  | _ => []

/- The exponent at the front of a text. -/
def exponentPart : Text → Text
  | c :: rest =>
    if c = 'e' ∨ c = 'E' then
      let sign := signPart rest
      match (rest.drop sign.length).takeWhile
          CodePoint.isAsciiDigit with
      | [] => []
      | digits => c :: sign ++ digits
    else
      []
  | [] => []

/- The longest number at the front of a text, if there is one. -/
def numberPart? (text : Text) : Option Text :=
  let sign := signPart text
  let afterSign := text.drop sign.length
  let whole := afterSign.takeWhile CodePoint.isAsciiDigit
  let afterWhole := afterSign.drop whole.length
  let fraction := fractionPart afterWhole
  if whole.isEmpty && fraction.isEmpty then none
  else
    some (sign ++ whole ++ fraction ++
      exponentPart (afterWhole.drop fraction.length))

/- Whether a number is written with a point or an exponent. -/
def isFloatNotation (text : Text) : Bool :=
  text.any fun c => c == '.' || c == 'e' || c == 'E'

/-
  The number that a lexeme stands for. With a point or an
  exponent it is a floating-point number, else an integer.
-/
def numberValue (text : Text) : Except LexCause Value :=
  if isFloatNotation text then
    let value := Binary64.ofNotation text
    if value.isFinite then .ok (.float value)
    else .error (.floatOutOfRange text)
  else if text.length - (signPart text).length >
      Text.maxIntegerDigits then
    .error .integerOutOfRange
  else
    .ok (.int (Binary64.signedInteger text))

/- A number. -/
def number (text : Text) : Except LexCause Lexeme := do
  let some written := numberPart? text
    | throw .malformedNumber
  let value ← numberValue written
  return ⟨written, some .number, some value⟩

------------------------------------------------------------
-- Words And Signs
------------------------------------------------------------

/- A reserved word or an identifier. -/
def word (text : Text) : Lexeme :=
  let written := text.takeWhile CodePoint.continuesName
  plain written
    ((TokenKind.words.lookup written).getD .identifier)

/- A sign, of two code points if there is such a one. -/
def sign
    (c : CodePoint)
    (rest : Text) :
    Except LexCause Lexeme :=
  let long := c :: rest.take 1
  match TokenKind.longSigns.lookup long with
  | some kind => .ok (plain long kind)
  | none =>
    match TokenKind.shortSigns.lookup [c] with
    | some kind => .ok (plain [c] kind)
    | none => .error (.unexpectedCharacter c)

------------------------------------------------------------
-- The Next Lexeme
------------------------------------------------------------

/- The lexeme at the front of a text that begins with a given code point. -/
def next
    (operandEnded : Bool)
    (c : CodePoint)
    (rest : Text) :
    Except LexCause Lexeme :=
  if c.isBlank then .ok (skipped [c])
  else if c = '#' then .ok (comment rest)
  else if c = '"' then doubleQuoted rest
  else if c = '\'' then singleQuoted rest
  else if numberAhead operandEnded c rest then number (c :: rest)
  else if c.isAsciiLetter then .ok (word (c :: rest))
  else sign c rest

/- Whether an operand has ended after a lexeme. -/
def endsOperand
    (lexeme : Lexeme)
    (operandEnded : Bool) :
    Bool :=
  match lexeme.kind with
  | some kind => kind.endsOperand
  | none => operandEnded

end Lexeme

------------------------------------------------------------
-- Scanning
------------------------------------------------------------

/-
  The tokens of a text up to its end, or up to the first
  place where no lexeme fits.
-/
structure Scan where
  tokens : List Token
  failure : Option LexError

/- The token of a lexeme, put in front of what follows. -/
def Scan.push
    (scan : Scan)
    (point : Point)
    (lexeme : Lexeme) :
    Scan :=
  match lexeme.kind with
  | none => scan
  | some kind =>
    let span := ⟨point, (point.advance lexeme.text).last⟩
    ⟨⟨kind, lexeme.text, span, lexeme.literal⟩ :: scan.tokens,
      scan.failure⟩

/-
  Scans a text from a given place. The end of the text gives
  a token of its own.
-/
def scanFrom
    (operandEnded : Bool)
    (point : Point)
    (text : Text) :
    Scan :=
  match text with
  | [] => ⟨[.endAt point], none⟩
  | c :: rest =>
    match Lexeme.next operandEnded c rest with
    | .error cause => ⟨[], some ⟨cause, point⟩⟩
    | .ok lexeme =>
      let following :=
        scanFrom (lexeme.endsOperand operandEnded)
          (point.advance lexeme.text)
          (rest.drop (lexeme.text.length - 1))
      following.push point lexeme
termination_by text.length
decreasing_by
  simp only [List.length_drop, List.length_cons]
  omega

/- Scans a whole script. -/
def scan (text : Text) : Scan :=
  scanFrom false .start text

/- The tokens of a script, the last of which marks its end. -/
def tokenize (text : Text) : Except LexError (List Token) :=
  let result := scan text
  match result.failure with
  | some failure => .error failure
  | none => .ok result.tokens

end ExperimentScript
