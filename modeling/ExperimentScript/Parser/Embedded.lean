import ExperimentScript.Json.Reader
import ExperimentScript.Parser.Cursor

/-
  Reading the constant after an `@`.

  The notation is looser than JSON: names of fields and
  texts may stand as bare identifiers. In strict reading a
  string in quotes is itself read as JSON, so that `@"5"`
  is the number five.

  Key definitions include:
    * `ExperimentScript.Embedded.value`
    * `ExperimentScript.Embedded.read`
-/

namespace ExperimentScript

namespace Embedded

------------------------------------------------------------
-- Failures
------------------------------------------------------------

/- The kinds that can begin an embedded constant. -/
def valueStarts : List TokenKind :=
  [.trueWord, .falseWord, .nullWord, .number, .string,
   .leftBracket, .leftBrace, .identifier]

/- Fails where one of some kinds was expected. -/
def unexpected
    {α : Type}
    (kinds : List TokenKind) :
    Parse α := do
  throw ⟨.unexpectedInLiteral, ← Parse.current, kinds⟩

/- Takes a token of a given kind or fails. -/
def expect (kind : TokenKind) : Parse Token := do
  if (← Parse.current).kind = kind then Parse.advance
  else unexpected [kind]

------------------------------------------------------------
-- Strings
------------------------------------------------------------

/- The constant of a string token that has been taken. -/
def stringValue
    (strict : Bool)
    (depth : Nat)
    (token : Token) :
    Parse Value := do
  match strict, token.literal with
  | true, some (.text text) =>
    match Json.decode depth text with
    | .ok value => return value
    | .error .notJson => throw ⟨.notJson, token, []⟩
    | .error .nestedTooDeeply =>
      Parse.tooDeep .literalNestedTooDeeply
  | _, literal => return literal.getD .null

------------------------------------------------------------
-- Lists And Maps
------------------------------------------------------------

/-
  The items of a list after its first bracket. The fuel
  bounds the number of items.
-/
def items
    (value : Parse Value) :
    Nat → Parse (List Value)
  | 0 => unexpected [.comma, .rightBracket]
  | fuel + 1 => do
    let item ← value
    match (← Parse.current).kind with
    | .comma =>
      let _ ← Parse.advance
      return item :: (← items value fuel)
    | .rightBracket =>
      let _ ← Parse.advance
      return [item]
    | _ => unexpected [.comma, .rightBracket]

/- A list after its first bracket. -/
def list (value : Parse Value) : Parse Value := do
  match (← Parse.current).kind with
  | .rightBracket =>
    let _ ← Parse.advance
    return .list []
  | _ => return .list (← items value (← get).fuel)

/-
  The fields of a map after its first brace, added to the
  fields before them. The fuel bounds the number of fields.
-/
def fields
    (value : Parse Value) :
    Nat → Fields Value → Parse (Fields Value)
  | 0, _ => unexpected [.comma, .rightBrace]
  | fuel + 1, before => do
    let name ← expect .identifier
    let _ ← expect .colon
    let after := before.set name.text (← value)
    match (← Parse.current).kind with
    | .comma =>
      let _ ← Parse.advance
      fields value fuel after
    | .rightBrace =>
      let _ ← Parse.advance
      return after
    | _ => unexpected [.comma, .rightBrace]

/- A map after its first brace. -/
def map (value : Parse Value) : Parse Value := do
  match (← Parse.current).kind with
  | .rightBrace =>
    let _ ← Parse.advance
    return .map []
  | _ => return .map (← fields value (← get).fuel [])

------------------------------------------------------------
-- Constants
------------------------------------------------------------

/- A constant in which lists and maps nest up to a given depth. -/
def value
    (strict : Bool) :
    Nat → Parse Value
  | 0 => Parse.tooDeep .literalNestedTooDeeply
  | depth + 1 => do
    let token ← Parse.current
    match token.kind with
    | .leftBracket =>
      let _ ← Parse.advance
      list (value strict depth)
    | .leftBrace =>
      let _ ← Parse.advance
      map (value strict depth)
    | .identifier =>
      let _ ← Parse.advance
      return .text token.text
    | .number =>
      let _ ← Parse.advance
      return token.literal.getD .null
    | .string =>
      let _ ← Parse.advance
      stringValue strict (depth + 1) token
    | .trueWord =>
      let _ ← Parse.advance
      return .bool true
    | .falseWord =>
      let _ ← Parse.advance
      return .bool false
    | .nullWord =>
      let _ ← Parse.advance
      return .null
    | _ => unexpected valueStarts

/- How deep embedded constants may nest. -/
def maxDepth : Nat := 1000

/- Reads a constant. -/
def read (strict : Bool) : Parse Value :=
  value strict maxDepth

end Embedded

end ExperimentScript
