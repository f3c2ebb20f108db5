import ExperimentScript.Json.Quoted
import ExperimentScript.Script.Label
import ExperimentScript.Text.Margin
import ExperimentScript.Token

/-
  Constants in script notation.

  Key definitions include:
    * `ExperimentScript.Format.Failure`
    * `ExperimentScript.Format.isName`
    * `ExperimentScript.Format.constant`
    * `ExperimentScript.Format.embedded`
-/

namespace ExperimentScript

namespace Format

------------------------------------------------------------
-- Failures
------------------------------------------------------------

/- Why a tree has no script notation. -/
inductive Failure where
  | notAScript
  | noNotation (label : Text)
  | noConstant (value : Value)
  | noFieldName (name : Text)
  | notFinite (value : Binary64)
  | noOperands
  | missingPart
  | nestedTooDeeply
  | badIndent
  | width (error : WidthError)

/- What a message says about a failure, if it says anything. -/
def Failure.message? : Failure → Option Text
  | .noNotation label => some ("cannot format " ++ label)
  | .noConstant value =>
    some ("cannot format constant " ++ value.display)
  | .noFieldName name =>
    some ("embedded map key " ++ name.quoted ++
      " is not an identifier")
  | .notFinite value =>
    some (value.toText ++ " has no source representation")
  | .notAScript | .noOperands | .missingPart | .nestedTooDeeply
  | .badIndent | .width _ => none

------------------------------------------------------------
-- Names
------------------------------------------------------------

/- Whether a text is read as one identifier. -/
def isName (text : Text) : Bool :=
  match text with
  | [] => false
  | c :: rest =>
    c.isAsciiLetter && rest.all CodePoint.continuesName &&
      (TokenKind.words.lookup text).isNone

------------------------------------------------------------
-- Plain Constants
------------------------------------------------------------

/- A constant without an `@`, which is a scalar. -/
def constant : Value → Except Failure Text
  | .null => .ok "null"
  | .bool true => .ok "true"
  | .bool false => .ok "false"
  | .int value => .ok (Text.ofInt value)
  | .float value =>
    if value.isFinite then .ok value.toText
    else .error (.notFinite value)
  | .text value => .ok (Json.quote value)
  | .list items => .error (.noConstant (.list items))
  | .map fields => .error (.noConstant (.map fields))

------------------------------------------------------------
-- Embedded Constants
------------------------------------------------------------

/-
  A text after an `@`. Where strings are read as JSON, it is
  written as JSON inside a string of the script.
-/
def embeddedText
    (strict : Bool)
    (text : Text) :
    Text :=
  let encoded := Json.quote text
  if isName text then text
  else if !strict then encoded
  else if encoded.contains (.char '\'') then Json.quote encoded
  else "'" ++ encoded ++ "'"

mutual

/-
  A constant after an `@`, in which lists and maps nest up to
  a number of levels.
-/
def embedded
    (strict : Bool) :
    Nat → Value → Except Failure Text
  | 0, .list _ => .error .nestedTooDeeply
  | 0, .map _ => .error .nestedTooDeeply
  | levels + 1, .list items => do
    let texts ← embeddedItems strict levels items
    return "[" ++ Text.join ", " texts ++ "]"
  | levels + 1, .map fields => do
    let texts ← embeddedFields strict levels fields
    return "\x7b" ++ Text.join ", " texts ++ "\x7d"
  | _, .text value => .ok (embeddedText strict value)
  | _, .null => constant .null
  | _, .bool value => constant (.bool value)
  | _, .int value => constant (.int value)
  | _, .float value => constant (.float value)

/- The items of a list. -/
def embeddedItems
    (strict : Bool)
    (levels : Nat) :
    List Value → Except Failure (List Text)
  | [] => .ok []
  | item :: items => do
    let first ← embedded strict levels item
    return first :: (← embeddedItems strict levels items)

/- The fields of a map, whose names must be identifiers. -/
def embeddedFields
    (strict : Bool)
    (levels : Nat) :
    List (Text × Value) → Except Failure (List Text)
  | [] => .ok []
  | (name, value) :: fields => do
    if !isName name then
      throw (.noFieldName name)
    let first ← embedded strict levels value
    return (name ++ ": " ++ first) ::
      (← embeddedFields strict levels fields)

end

end Format

end ExperimentScript
