import ExperimentScript.Room
import ExperimentScript.Script.Label

/-
  Script trees as indented listings, a node or a field a
  line. A listing ends where there is no room to go deeper.

  Key definitions include:
    * `ExperimentScript.View.Line`
    * `ExperimentScript.View.node`
    * `ExperimentScript.View.listing`
-/

namespace ExperimentScript

namespace View

variable {α : Type}

------------------------------------------------------------
-- Lines
------------------------------------------------------------

/- A line of a listing, or where the listing cannot go on. -/
inductive Line where
  | shown (text : Text)
  | cut

/- A line at a depth. -/
def line
    (depth : Nat)
    (text : Text) :
    Line :=
  .shown (Text.blanks (2 * depth) ++ text)

/- The line of a field with a plain value. -/
def plainField
    (depth : Nat)
    (name : Text)
    (value : Text) :
    List Line :=
  [line (depth + 1) (name ++ ": " ++ value)]

/- The lines of a field whose value has lines of its own. -/
def nestedField
    (depth : Nat)
    (name : Text)
    (lines : List Line) :
    List Line :=
  line (depth + 1) (name ++ ":") :: lines

/- The lines of a field that is a list with lines of its own. -/
def listField
    (depth : Nat)
    (name : Text)
    (lines : List Line) :
    List Line :=
  match lines with
  | [] => plainField depth name "[]"
  | lines => nestedField depth name lines

------------------------------------------------------------
-- Constants
------------------------------------------------------------

/- The name of the kind of a constant. -/
def kindOf : Value → Text
  | .null => "NoneType"
  | .bool _ => "bool"
  | .int _ => "int"
  | .float _ => "float"
  | .text _ => "str"
  | .list _ => "list"
  | .map _ => "dict"

/- The lines of the constant of a literal; a list has a line for each item. -/
def constant
    (depth : Nat) :
    Value → List Line
  | .list items =>
    listField depth "value"
      (items.map fun item =>
        line (depth + 2) (kindOf item ++ ": " ++ item.display))
  | value => plainField depth "value" value.display

------------------------------------------------------------
-- Nodes
------------------------------------------------------------

mutual

/-
  The lines of a node at a depth, in which nodes nest up to a
  number of levels.
-/
def node
    (depth : Nat) :
    Nat → Node α → List Line
  | 0, _ => [.cut]
  | levels + 1, .sequence statements _ =>
    line depth "Sequence" ::
      listField depth "statements" (nodes (depth + 2) levels statements)
  | levels + 1, .assign name value _ =>
    line depth "Assign" :: plainField depth "name" name.quoted ++
      nestedField depth "value" (node (depth + 2) levels value)
  | levels + 1, .return value _ =>
    line depth "Return" ::
      nestedField depth "value" (node (depth + 2) levels value)
  | _ + 1, .variable name _ =>
    line depth "VarRef" :: plainField depth "name" name.quoted
  | _ + 1, .literal value embedded _ =>
    line depth "Literal" :: constant depth value ++
      plainField depth "embedded" (Value.bool embedded).display
  | levels + 1, .array items _ =>
    line depth "ArrayLit" ::
      listField depth "values" (nodes (depth + 2) levels items)
  | levels + 1, .index base position _ =>
    line depth "Index" ::
      nestedField depth "base" (node (depth + 2) levels base) ++
      nestedField depth "index" (node (depth + 2) levels position)
  | levels + 1, .call name arguments _ =>
    line depth "OperatorCall" :: plainField depth "name" name.quoted ++
      nestedField depth "args"
        (line (depth + 2) "PositionalArgs" ::
          listField (depth + 2) "values" (nodes (depth + 4) levels arguments))
  | levels + 1, .callNamed name arguments _ =>
    line depth "OperatorCall" :: plainField depth "name" name.quoted ++
      nestedField depth "args"
        (line (depth + 2) "NamedArgs" ::
          namedNodes (depth + 2) levels arguments)
  | levels + 1, .unary op operand _ =>
    line depth op.label ::
      nestedField depth "value" (node (depth + 2) levels operand)
  | levels + 1, .binary op left right _ =>
    line depth op.label ::
      nestedField depth "left" (node (depth + 2) levels left) ++
      nestedField depth "right" (node (depth + 2) levels right)
  | levels + 1, .variadic op operands _ =>
    line depth op.label ::
      listField depth "values" (nodes (depth + 2) levels operands)
  | levels + 1, .switch steps _ =>
    line depth "Switch" ::
      listField depth "cases" (cases (depth + 2) levels steps)
  | levels + 1, .cond steps _ =>
    line depth "Cond" ::
      listField depth "branches" (branches (depth + 2) levels steps)
  | _ + 1, .fragment part => [line depth part.label]

/- The lines of some nodes. -/
def nodes
    (depth levels : Nat) :
    List (Node α) → List Line
  | [] => []
  | first :: rest => node depth levels first ++ nodes depth levels rest

/- The lines of some named arguments. -/
def namedNodes
    (depth levels : Nat) :
    List (Text × Node α) → List Line
  | [] => []
  | (name, first) :: rest =>
    nestedField depth name (node (depth + 2) levels first) ++
      namedNodes depth levels rest

/- The lines of the cases of a switch. -/
def cases
    (depth levels : Nat) :
    List (Case α) → List Line
  | [] => []
  | .mk guard result :: rest =>
    line depth "Case" ::
      nestedField depth "guard" (node (depth + 2) levels guard) ++
      nestedField depth "result" (node (depth + 2) levels result) ++
      cases depth levels rest

/- The lines of the steps of an if-chain. -/
def branches
    (depth levels : Nat) :
    List (Branch α) → List Line
  | [] => []
  | .test guard consequence :: rest =>
    line depth "Branch" ::
      nestedField depth "guard" (node (depth + 2) levels guard) ++
      nestedField depth "consequence" (node (depth + 2) levels consequence) ++
      branches depth levels rest
  | .otherwise consequence :: rest =>
    line depth "Branch" ::
      nestedField depth "guard" [line (depth + 2) "AlwaysTrue"] ++
      nestedField depth "consequence" (node (depth + 2) levels consequence) ++
      branches depth levels rest

end

/- The listing of a tree, as far as there is room for it. -/
def listing
    [Room]
    (tree : Node α) :
    List Line :=
  node 0 Room.viewLevels tree

end View

end ExperimentScript
