import ExperimentScript.Lexer
import ExperimentScript.Text.Lines
import ExperimentScript.Text.Word

/-
  Painting scripts: cutting a text into coloured pieces.

  At each place the first rule that fits gives the piece, and
  where none fits one code point is a piece in error. All
  pieces together are the text again.

  Key definitions include:
    * `ExperimentScript.Highlight.Paint`
    * `ExperimentScript.Highlight.outside?`
    * `ExperimentScript.Highlight.inside?`
    * `ExperimentScript.Highlight.pieces`
    * `ExperimentScript.Highlight.prepare`
-/

namespace ExperimentScript

namespace Highlight

------------------------------------------------------------
-- Pieces
------------------------------------------------------------

/- The colours of pieces. -/
inductive Paint where
  | blank
  | comment
  | doubleQuoted
  | singleQuoted
  | escape
  | float
  | integer
  | keyword
  | constant
  | marker
  | operator
  | function
  | attribute
  | variable
  | punctuation
  | error
deriving DecidableEq, Repr

/- Whether a place is inside a string in double quotes. -/
inductive Mode where
  | outside
  | inside
deriving DecidableEq, Repr

/- A piece of text, its colour and where the text goes on. -/
structure Piece where
  paint : Paint
  text : Text
  mode : Mode
deriving Repr

/- A piece of what a rule found, if it found anything. -/
def piece?
    (paint : Paint)
    (mode : Mode)
    (text : Text) :
    Option Piece :=
  if text.isEmpty then none else some ⟨paint, text, mode⟩

------------------------------------------------------------
-- Rules Outside Strings
------------------------------------------------------------

/- Blank space. -/
def blankPart (text : Text) : Text :=
  text.takeWhile CodePoint.isBlank

/- A comment up to the end of its line. -/
def commentPart : Text → Text
  | .char '#' :: rest => .char '#' :: rest.takeWhile (· ≠ .char '\n')
  | _ => []

/- A code point at the front of a text, if it is one of some. -/
def oneOf
    (marks : Text)
    (text : Text) :
    Text :=
  match text with
  | c :: _ => if marks.contains c then [c] else []
  | [] => []

/- A string in single quotes, if it is closed. -/
def singleQuotedPart : Text → Text
  | .char '\'' :: rest =>
    match Text.cut? '\'' rest with
    | some (body, _) => .char '\'' :: body ++ [.char '\'']
    | none => []
  | _ => []

/- A number with a point. -/
def pointedPart (text : Text) : Text :=
  let whole := text.takeWhile CodePoint.isAsciiDigit
  let afterWhole := text.drop whole.length
  match Lexeme.fractionPart afterWhole with
  | [] => []
  | fraction =>
    whole ++ fraction ++
      Lexeme.exponentPart (afterWhole.drop fraction.length)

/- A number with an exponent and no point. -/
def exponentialPart (text : Text) : Text :=
  let whole := text.takeWhile CodePoint.isAsciiDigit
  match whole, Lexeme.exponentPart (text.drop whole.length) with
  | [], _ => []
  | _, [] => []
  | _, exponent => whole ++ exponent

/- A number of digits alone. -/
def digitsPart (text : Text) : Text :=
  text.takeWhile CodePoint.isAsciiDigit

/-
  One of some words, if neither the code point before it nor
  the one after it is part of a word.
-/
def wordPart
    (words : List Text)
    (before : Option CodePoint)
    (text : Text) :
    Text :=
  let free :=
    match before with
    | some c => !c.isWord
    | none => true
  let fits (word : Text) :=
    free && word.isPrefixOf text && Text.atWordEnd (text.drop word.length)
  (words.find? fits).getD []

/- One of some signs of two code points. -/
def signPart
    (signs : List Text)
    (text : Text) :
    Text :=
  (signs.find? (·.isPrefixOf text)).getD []

/- A name. -/
def namePart : Text → Text
  | c :: rest =>
    if c.isAsciiLetter then
      c :: rest.takeWhile CodePoint.continuesName
    else
      []
  | [] => []

/- A name with a given sign after it and only blank space between. -/
def namePartBefore
    (sign : CodePoint)
    (text : Text) :
    Text :=
  let name := namePart text
  let after := (text.drop name.length).dropWhile CodePoint.isBlank
  if after.head? = some sign then name else []

/- The words that are not names. -/
def keywords : List Text :=
  ["switch", "if", "else", "return"]

/- The words that are constants. -/
def constants : List Text :=
  ["true", "false", "null"]

/- The signs of two code points. -/
def longSigns : List Text :=
  ["<-", "=>", "==", "!=", "<=", ">=", "&&", "||", "??"]

/- The piece at the front of a text outside strings, by the first rule that fits. -/
def outside?
    (before : Option CodePoint)
    (text : Text) :
    Option Piece :=
  let rule (paint : Paint) (found : Text) :=
    piece? paint .outside found
  rule .blank (blankPart text)
    <|> rule .comment (commentPart text)
    <|> piece? .doubleQuoted .inside (oneOf "\"" text)
    <|> rule .singleQuoted (singleQuotedPart text)
    <|> rule .float (pointedPart text)
    <|> rule .float (exponentialPart text)
    <|> rule .integer (digitsPart text)
    <|> rule .keyword (wordPart keywords before text)
    <|> rule .constant (wordPart constants before text)
    <|> rule .marker (oneOf "@" text)
    <|> rule .operator (signPart longSigns text)
    <|> rule .operator (oneOf "+-*/%<>!=" text)
    <|> rule .function (namePartBefore '(' text)
    <|> rule .attribute (namePartBefore ':' text)
    <|> rule .variable (namePart text)
    <|> rule .punctuation (oneOf "(),;[]\x7b\x7d:" text)

------------------------------------------------------------
-- Rules Inside Strings
------------------------------------------------------------

/- An escape. -/
def escapePart : Text → Text
  | .char '\\' :: .char 'u' :: a :: b :: c :: d :: _ =>
    if (Lexeme.hexEscape? a b c d).isSome then
      [.char '\\', .char 'u', a, b, c, d]
    else
      []
  | .char '\\' :: e :: _ =>
    if (Lexeme.escape? e).isSome then [.char '\\', e] else []
  | _ => []

/- The code points that stand for themselves. -/
def verbatimPart (text : Text) : Text :=
  text.takeWhile fun c => c != '"' && c != '\\'

/- The piece at the front of a text inside a string, by the first rule that fits. -/
def inside? (text : Text) : Option Piece :=
  piece? .escape .inside (escapePart text)
    <|> piece? .doubleQuoted .inside (verbatimPart text)
    <|> piece? .doubleQuoted .outside (oneOf "\"" text)

------------------------------------------------------------
-- Painting
------------------------------------------------------------

/- The piece at the front of a text that begins with a given code point. -/
def next
    (mode : Mode)
    (before : Option CodePoint)
    (c : CodePoint)
    (rest : Text) :
    Piece :=
  let found :=
    match mode with
    | .outside => outside? before (c :: rest)
    | .inside => inside? (c :: rest)
  found.getD ⟨.error, [c], mode⟩

/- The pieces of a text from a given place on. -/
def piecesFrom
    (mode : Mode)
    (before : Option CodePoint)
    (text : Text) :
    List (Paint × Text) :=
  match text with
  | [] => []
  | c :: rest =>
    let piece := next mode before c rest
    (piece.paint, piece.text) ::
      piecesFrom piece.mode piece.text.getLast?
        (rest.drop (piece.text.length - 1))
termination_by text.length
decreasing_by
  simp only [List.length_drop, List.length_cons]
  omega

/- The pieces of a text. -/
def pieces (text : Text) : List (Paint × Text) :=
  piecesFrom .outside none text

/- The pieces with the number of code points before each. -/
def withOffsets
    (offset : Nat) :
    List (Paint × Text) → List (Nat × Paint × Text)
  | [] => []
  | (paint, text) :: rest =>
    (offset, paint, text) :: withOffsets (offset + text.length) rest

/-
  A text as it is painted by default: without a byte order
  mark, with line feeds as the only ends of lines, with none
  at its front and one at its end.
-/
def prepare (text : Text) : Text :=
  let isFeed := fun c : CodePoint => c = '\n'
  let unmarked : Text :=
    match text with
    | c :: rest => if c.toNat = 0xFEFF then rest else text
    | [] => []
  let body := (Text.unifyLineEnds unmarked).dropWhile isFeed
  (body.reverse.dropWhile isFeed).reverse ++ "\n"

end Highlight

end ExperimentScript
