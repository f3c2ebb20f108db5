import ExperimentScript.Json.Quoted
import ExperimentScript.Room
import ExperimentScript.Value

/-
  Writing a constant as JSON text, on one line or with every
  item on a line of its own.

  Key definitions include:
    * `ExperimentScript.Json.Layout`
    * `ExperimentScript.Json.write`
    * `ExperimentScript.Json.Unwritable`
    * `ExperimentScript.Json.encode`
-/

namespace ExperimentScript

namespace Json

------------------------------------------------------------
-- Layouts
------------------------------------------------------------

/- How the items of lists and maps are set apart. -/
inductive Layout where
  | oneLine
  | indented (unit : Text)
deriving DecidableEq, Repr

namespace Layout

/- What begins a line at a level of nesting. -/
def lineStart
    (layout : Layout)
    (level : Nat) :
    Text :=
  match layout with
  | .oneLine => []
  | .indented unit => "\n" ++ Text.replicate level unit

/- What stands between two items at a level of nesting. -/
def separator
    (layout : Layout)
    (level : Nat) :
    Text :=
  match layout with
  | .oneLine => ", "
  | .indented _ => "," ++ layout.lineStart level

/- The items of a list or map between its brackets. -/
def enclose
    (layout : Layout)
    (level : Nat)
    (opening closing : Text)
    (items : List Text) :
    Text :=
  match items with
  | [] => opening ++ closing
  | items =>
    opening ++ layout.lineStart (level + 1) ++
      Text.join (layout.separator (level + 1)) items ++
      layout.lineStart level ++ closing

end Layout

------------------------------------------------------------
-- Writing
------------------------------------------------------------

mutual

/- The text of a constant at a level of nesting. -/
def write
    (layout : Layout)
    (level : Nat) :
    Value → Text
  | .null => "null"
  | .bool true => "true"
  | .bool false => "false"
  | .int value => Text.ofInt value
  | .float value => value.toText
  | .text value => quoteAscii value
  | .list items =>
    layout.enclose level "[" "]"
      (writeItems layout (level + 1) items)
  | .map fields =>
    layout.enclose level "\x7b" "\x7d"
      (writeFields layout (level + 1) fields)

/- The texts of the items of a list. -/
def writeItems
    (layout : Layout)
    (level : Nat) :
    List Value → List Text
  | [] => []
  | item :: items =>
    write layout level item :: writeItems layout level items

/- The texts of the fields of a map. -/
def writeFields
    (layout : Layout)
    (level : Nat) :
    List (Text × Value) → List Text
  | [] => []
  | (name, value) :: fields =>
    (quoteAscii name ++ ": " ++ write layout level value) ::
      writeFields layout level fields

end

mutual

/- Whether all numbers of a constant are finite. -/
def isFinite : Value → Bool
  | .float value => value.isFinite
  | .list items => areFinite items
  | .map fields => haveFinite fields
  | _ => true

/- Whether all numbers of some constants are finite. -/
def areFinite : List Value → Bool
  | [] => true
  | item :: items => isFinite item && areFinite items

/- Whether all numbers of some named constants are finite. -/
def haveFinite : List (Text × Value) → Bool
  | [] => true
  | (_, value) :: fields => isFinite value && haveFinite fields

end

/- Why a constant has no JSON text. -/
inductive Unwritable where
  | notFinite
  | nestedTooDeeply
deriving DecidableEq, Repr

/-
  The JSON text of a constant. All its numbers must be finite,
  and it must not nest deeper than there is room for.
-/
def encode
    [Room]
    (layout : Layout)
    (value : Value) :
    Except Unwritable Text :=
  if Room.jsonLevels < value.nesting then .error .nestedTooDeeply
  else if isFinite value then .ok (write layout 0 value)
  else .error .notFinite

end Json

end ExperimentScript
