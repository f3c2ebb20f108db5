import ExperimentScript.Value

/-
  Values in a TOML document.

  A date or a time is a value of its own. It has no notation
  in JSON, and it is neither a number nor a text wherever one
  of these is asked for.

  Key definitions include:
    * `ExperimentScript.Toml.Value`
    * `ExperimentScript.Toml.Value.isTruthy`
    * `ExperimentScript.Toml.Value.toInt?`
-/

namespace ExperimentScript

namespace Toml

/-
  A value: a scalar, an array or a table. A date or time is
  kept as it was written.
-/
inductive Value where
  | bool (value : Bool)
  | int (value : Int)
  | float (value : Binary64)
  | text (value : Text)
  | moment (written : Text)
  | list (items : List Value)
  | map (fields : List (Text × Value))
deriving Inhabited

namespace Value

/- Whether a value counts as true. -/
def isTruthy : Value → Bool
  | .bool value => value
  | .int value => value != 0
  | .float value => value.magnitude != 0
  | .text value => !value.isEmpty
  | .moment _ => true
  | .list items => !items.isEmpty
  | .map fields => !fields.isEmpty

/- A whole number, as which truth counts as one. -/
def toInt? : Value → Option Int
  | .int value => some value
  | .bool value => some value.toNat
  | _ => none

/- Whether a value is a table or an array. -/
def isContainer : Value → Bool
  | .list _ | .map _ => true
  | _ => false

end Value

end Toml

end ExperimentScript
