import ExperimentScript.Span
import ExperimentScript.Value

/-
  Tokens of a script.

  Key definitions include:
    * `ExperimentScript.TokenKind`
    * `ExperimentScript.TokenKind.endsOperand`
    * `ExperimentScript.TokenKind.startsOperand`
    * `ExperimentScript.TokenKind.description`
    * `ExperimentScript.Token`
-/

------------------------------------------------------------
-- Kinds
------------------------------------------------------------

namespace ExperimentScript

/- The kinds of tokens. -/
inductive TokenKind where
  | switchWord
  | ifWord
  | elseWord
  | returnWord
  | trueWord
  | falseWord
  | nullWord
  | number
  | string
  | at
  | arrowAssign
  | or
  | and
  | coalesce
  | equal
  | notEqual
  | greaterEqual
  | lessEqual
  | fatArrow
  | assign
  | plus
  | minus
  | star
  | slash
  | percent
  | greater
  | less
  | bang
  | colon
  | comma
  | leftParen
  | rightParen
  | leftBracket
  | rightBracket
  | leftBrace
  | rightBrace
  | semicolon
  | identifier
  | endOfInput
deriving DecidableEq, Repr, Inhabited

namespace TokenKind

/- Every kind once. -/
def all : List TokenKind :=
  [.switchWord, .ifWord, .elseWord, .returnWord, .trueWord,
   .falseWord, .nullWord, .number, .string, .at, .arrowAssign,
   .or, .and, .coalesce, .equal, .notEqual, .greaterEqual,
   .lessEqual, .fatArrow, .assign, .plus, .minus, .star,
   .slash, .percent, .greater, .less, .bang, .colon, .comma,
   .leftParen, .rightParen, .leftBracket, .rightBracket,
   .leftBrace, .rightBrace, .semicolon, .identifier,
   .endOfInput]

/- The name of a kind in token listings. -/
def label : TokenKind → String
  | .switchWord => "SWITCH"
  | .ifWord => "IF"
  | .elseWord => "ELSE"
  | .returnWord => "RETURN"
  | .trueWord => "TRUE"
  | .falseWord => "FALSE"
  | .nullWord => "NULL"
  | .number => "NUMBER_LIT"
  | .string => "STRING_LIT"
  | .at => "AT"
  | .arrowAssign => "ARROW_ASSIGN"
  | .or => "OR"
  | .and => "AND"
  | .coalesce => "COALESCE"
  | .equal => "EQUAL"
  | .notEqual => "NOT_EQUAL"
  | .greaterEqual => "GREATER_EQUAL"
  | .lessEqual => "LESS_EQUAL"
  | .fatArrow => "FAT_ARROW"
  | .assign => "ASSIGN"
  | .plus => "PLUS"
  | .minus => "MINUS"
  | .star => "STAR"
  | .slash => "SLASH"
  | .percent => "PERCENT"
  | .greater => "GREATER"
  | .less => "LESS"
  | .bang => "BANG"
  | .colon => "COLON"
  | .comma => "COMMA"
  | .leftParen => "LPAREN"
  | .rightParen => "RPAREN"
  | .leftBracket => "LBRACKET"
  | .rightBracket => "RBRACKET"
  | .leftBrace => "LBRACE"
  | .rightBrace => "RBRACE"
  | .semicolon => "SEMICOLON"
  | .identifier => "IDENTIFIER"
  | .endOfInput => "EOF"

------------------------------------------------------------
-- Spelling
------------------------------------------------------------

/- The reserved words. -/
def words : List (Text × TokenKind) :=
  [("switch", .switchWord), ("if", .ifWord), ("else", .elseWord),
   ("return", .returnWord), ("true", .trueWord),
   ("false", .falseWord), ("null", .nullWord)]

/- The signs of two code points. -/
def longSigns : List (Text × TokenKind) :=
  [("<-", .arrowAssign), ("||", .or), ("&&", .and),
   ("??", .coalesce), ("==", .equal), (">=", .greaterEqual),
   ("<=", .lessEqual), ("!=", .notEqual), ("=>", .fatArrow)]

/- The signs of one code point. -/
def shortSigns : List (Text × TokenKind) :=
  [("=", .assign), (":", .colon), ("[", .leftBracket),
   ("]", .rightBracket), ("(", .leftParen), (")", .rightParen),
   (",", .comma), ("\x7b", .leftBrace), ("\x7d", .rightBrace),
   ("+", .plus), ("%", .percent), ("*", .star), ("-", .minus),
   ("/", .slash), (">", .greater), ("<", .less), ("!", .bang),
   (";", .semicolon), ("@", .at)]

/- The spelling of a reserved word or sign. -/
def spelling? (kind : TokenKind) : Option Text :=
  ((words ++ longSigns ++ shortSigns).find?
    fun entry => entry.2 = kind).map Prod.fst

/- What a kind is called in messages. -/
def description : TokenKind → Text
  | .identifier => "identifier"
  | .number => "number"
  | .string => "string"
  | .endOfInput => "end of input"
  | kind => kind.spelling?.getD []

------------------------------------------------------------
-- Operands
------------------------------------------------------------

/-
  The kinds that complete an operand. A sign after one of
  them is an operator and no part of a number.
-/
def endsOperand : TokenKind → Bool
  | .identifier | .number | .string => true
  | .trueWord | .falseWord | .nullWord => true
  | .rightParen | .rightBracket | .rightBrace => true
  | _ => false

/- The kinds that can begin an expression. -/
def operandStarts : List TokenKind :=
  [.identifier, .number, .string, .trueWord, .falseWord,
   .nullWord, .at, .leftParen, .leftBracket, .leftBrace,
   .bang, .minus, .switchWord, .ifWord, .returnWord]

/- Whether a kind can begin an expression. -/
def startsOperand (kind : TokenKind) : Bool :=
  operandStarts.contains kind

end TokenKind

------------------------------------------------------------
-- Tokens
------------------------------------------------------------

/-
  A token: its kind, the text it was read from, its place,
  and the constant that a number or a string stands for.
-/
structure Token where
  kind : TokenKind
  text : Text
  span : Span
  literal : Option Value
deriving Inhabited

namespace Token

/- The token after the last code point of a script. -/
def endAt (point : Point) : Token :=
  ⟨.endOfInput, [], ⟨point, point.last⟩, none⟩

/- How messages show a token that was not expected. -/
def shown (token : Token) : Text :=
  match token.kind with
  | .endOfInput => token.kind.description
  | _ => token.text.quoted

end Token

end ExperimentScript
