import ExperimentScript.Number.Decimal
import ExperimentScript.Text.Quoted

/-
  Constant data: the values of literals, of embedded data
  and of settings.

  Key definitions include:
    * `ExperimentScript.Fields`
    * `ExperimentScript.Value`
    * `ExperimentScript.Value.same`
    * `ExperimentScript.Value.display`
    * `ExperimentScript.Value.nesting`
-/

namespace ExperimentScript

------------------------------------------------------------
-- Ordered Fields
------------------------------------------------------------

/- Named entries in the order in which they first appeared. -/
abbrev Fields (α : Type) := List (Text × α)

namespace Fields

variable {α : Type}

/-
  The fields with one more entry. A name that is present
  keeps its place and takes the new value.
-/
def set
    (fields : Fields α)
    (name : Text)
    (value : α) :
    Fields α :=
  match fields with
  | [] => [(name, value)]
  | (key, old) :: rest =>
    if key = name then (key, value) :: rest
    else (key, old) :: set rest name value

/- The value of a name. -/
def get?
    (fields : Fields α)
    (name : Text) :
    Option α :=
  fields.lookup name

end Fields

------------------------------------------------------------
-- Values
------------------------------------------------------------

/- A constant: a scalar, a list of constants or named constants. -/
inductive Value where
  | null
  | bool (value : Bool)
  | int (value : Int)
  | float (value : Binary64)
  | text (value : Text)
  | list (items : List Value)
  | map (fields : List (Text × Value))
deriving Inhabited

namespace Value

------------------------------------------------------------
-- Sameness
------------------------------------------------------------

/- A number as a quotient, with its sign in the numerator. -/
def ratio? : Value → Option (Int × Nat)
  | .bool value => some (value.toNat, 1)
  | .int value => some (value, 1)
  | .float value =>
    if value.isFinite then
      let (numerator, denominator) := Binary64.ratio value.magnitude
      some (if value.negative then -numerator else numerator,
        denominator)
    else
      none
  | _ => none

/-
  Whether two scalars are the same: numbers are compared by
  value, where truth counts as one and falsehood as zero.
-/
def sameScalar : Value → Value → Bool
  | .null, .null => true
  | .text a, .text b => a == b
  | .float a, .float b =>
    if a.isFinite && b.isFinite then
      (Value.float a).ratio? == (Value.float b).ratio?
    else
      !a.isNan && a == b
  | a, b =>
    match a.ratio?, b.ratio? with
    | some (n, d), some (m, e) => n * e == m * d
    | _, _ => false

mutual

/-
  Whether two constants are the same: lists item by item,
  and named constants whatever their order.
-/
def same : Value → Value → Bool
  | .list items, .list others => sameItems items others
  | .map fields, .map others =>
    fields.length == others.length && sameFields fields others
  | .list _, _ => false
  | .map _, _ => false
  | a, b => sameScalar a b

/- Whether two lists have the same items in the same order. -/
def sameItems : List Value → List Value → Bool
  | [], [] => true
  | a :: as, b :: bs => same a b && sameItems as bs
  | _, _ => false

/- Whether every field has a field of the same name and value. -/
def sameFields : List (Text × Value) → List (Text × Value) → Bool
  | [], _ => true
  | (name, value) :: rest, others =>
    (match others.lookup name with
      | some other => same value other
      | none => false) && sameFields rest others

end

------------------------------------------------------------
-- Display
------------------------------------------------------------

mutual

/- A constant as listings and messages show it. -/
def display : Value → Text
  | .null => "None"
  | .bool true => "True"
  | .bool false => "False"
  | .int value => Text.ofInt value
  | .float value => value.toText
  | .text value => value.quoted
  | .list items => "[" ++ Text.join ", " (displayItems items) ++ "]"
  | .map fields =>
    "\x7b" ++ Text.join ", " (displayFields fields) ++ "\x7d"

/- The items of a list, each as it is shown. -/
def displayItems : List Value → List Text
  | [] => []
  | item :: items => display item :: displayItems items

/- The fields of a map, each as it is shown. -/
def displayFields : List (Text × Value) → List Text
  | [] => []
  | (name, value) :: rest =>
    (name.quoted ++ ": " ++ display value) :: displayFields rest

end

------------------------------------------------------------
-- Nesting
------------------------------------------------------------

mutual

/- How deep lists and maps nest in a constant, which counts itself. -/
def nesting : Value → Nat
  | .list items => nestingItems items + 1
  | .map fields => nestingFields fields + 1
  | _ => 1

/- The deepest nesting in some constants. -/
def nestingItems : List Value → Nat
  | [] => 0
  | item :: items => max (nesting item) (nestingItems items)

/- The deepest nesting in the values of some fields. -/
def nestingFields : List (Text × Value) → Nat
  | [] => 0
  | (_, value) :: fields =>
    max (nesting value) (nestingFields fields)

end

end Value

end ExperimentScript
