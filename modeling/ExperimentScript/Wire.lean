import ExperimentScript.Json.Writer
import ExperimentScript.Script.Label
import ExperimentScript.Text.Margin

/-
  Scripts as JSON for an interpreter.

  Every node is a map whose field `op` names it; a plain
  constant is written bare. The field for the guard of a
  case has a name that can be chosen.

  Key definitions include:
    * `ExperimentScript.Wire.Failure`
    * `ExperimentScript.Wire.encodeWithin`
    * `ExperimentScript.Wire.encode`
    * `ExperimentScript.Wire.indentedBy`
    * `ExperimentScript.Wire.dump`
-/

namespace ExperimentScript

namespace Wire

variable {α : Type}

------------------------------------------------------------
-- Failures
------------------------------------------------------------

/- Why a tree has no wire form. -/
inductive Failure where
  | noWireForm (label : Text)
  | missingPart
  | notFinite
  | nestedTooDeeply
  | badCaseKey
  | unwritableKey
  | badIndent
  | width (error : WidthError)

/- What a message says about a failure, if it says anything. -/
def Failure.message? : Failure → Option Text
  | .noWireForm label => some ("cannot serialize " ++ label)
  | .missingPart | .notFinite | .nestedTooDeeply | .badCaseKey
  | .unwritableKey | .badIndent | .width _ => none

------------------------------------------------------------
-- Operators
------------------------------------------------------------

/- The name of an operator with one operand. -/
def unaryName : UnaryOp → Text
  | .negate => "negative"
  | .not => "not"

/- The name of an operator with two operands. -/
def binaryName : BinaryOp → Text
  | .modulo => "%"
  | .divide => "/"
  | .greater => ">"
  | .less => "<"
  | .equals => "equals"
  | .lessEqual => "<="
  | .greaterEqual => ">="

/- The name of an operator with any number of operands. -/
def variadicName : VariadicOp → Text
  | .sum => "sum"
  | .product => "product"
  | .or => "or"
  | .and => "and"
  | .coalesce => "coalesce"

/- A map with the name of a node in front of its other fields. -/
def tagged
    (op : Text)
    (fields : Fields Value) :
    Value :=
  .map (("op", .text op) :: fields)

/- A case, whose guard stands under a chosen name. -/
def caseFields
    (caseKey : Text)
    (guard result : Value) :
    Fields Value :=
  ((Fields.set [] "op" (.text "case")).set caseKey guard).set
    "result" result

/-
  The arguments of a call, to which the name of the operator
  is added last.
-/
def callFields
    (name : Text)
    (arguments : Fields Value) :
    Fields Value :=
  arguments.set "op" (.text name)

/- Positional arguments; one alone stands without a list. -/
def positionalFields : List Value → Fields Value
  | [argument] => [("value", argument)]
  | arguments => [("values", .list arguments)]

------------------------------------------------------------
-- Encoding
------------------------------------------------------------

mutual

/- The wire form of a node in which nodes nest up to a number of levels. -/
def encodeWithin
    (caseKey : Text) :
    Nat → Node α → Except Failure Value
  | 0, _ => .error .nestedTooDeeply
  | _ + 1, .literal value true _ =>
    .ok (tagged "literal" [("value", value)])
  | _ + 1, .literal value false _ => .ok value
  | levels + 1, .sequence statements _ => do
    return tagged "seq"
      [("seq", .list (← encodeNodes caseKey levels statements))]
  | levels + 1, .assign name value _ => do
    return tagged "set"
      [("var", .text name), ("value", ← encodeWithin caseKey levels value)]
  | _ + 1, .variable name _ => .ok (tagged "get" [("var", .text name)])
  | levels + 1, .array items _ => do
    return tagged "array"
      [("values", .list (← encodeNodes caseKey levels items))]
  | levels + 1, .index base position _ => do
    return tagged "index"
      [("base", ← encodeWithin caseKey levels base),
       ("index", ← encodeWithin caseKey levels position)]
  | levels + 1, .call name arguments _ => do
    let values ← encodeNodes caseKey levels arguments
    return .map (callFields name (positionalFields values))
  | levels + 1, .callNamed name arguments _ => do
    let fields ← encodeNamed caseKey levels arguments
    return .map (callFields name fields)
  | levels + 1, .unary op operand _ => do
    return tagged (unaryName op)
      [("value", ← encodeWithin caseKey levels operand)]
  | levels + 1, .return value _ => do
    return tagged "return"
      [("value", ← encodeWithin caseKey levels value)]
  | levels + 1, .binary op left right _ => do
    return tagged (binaryName op)
      [("left", ← encodeWithin caseKey levels left),
       ("right", ← encodeWithin caseKey levels right)]
  | levels + 1, .variadic op operands _ => do
    return tagged (variadicName op)
      [("values", .list (← encodeNodes caseKey levels operands))]
  | levels + 1, .switch cases _ => do
    return tagged "switch"
      [("cases", .list (← encodeCases caseKey levels cases))]
  | levels + 1, .cond branches _ => do
    return tagged "cond"
      [("cond", .list (← encodeBranches caseKey levels branches))]
  | _ + 1, .fragment .missing => .error .missingPart
  | _ + 1, .fragment part => .error (.noWireForm part.label)

/- The wire forms of some nodes. -/
def encodeNodes
    (caseKey : Text)
    (levels : Nat) :
    List (Node α) → Except Failure (List Value)
  | [] => .ok []
  | node :: rest => do
    let first ← encodeWithin caseKey levels node
    return first :: (← encodeNodes caseKey levels rest)

/- The wire forms of some named arguments. -/
def encodeNamed
    (caseKey : Text)
    (levels : Nat) :
    List (Text × Node α) → Except Failure (Fields Value)
  | [] => .ok []
  | (name, node) :: rest => do
    let first ← encodeWithin caseKey levels node
    return (name, first) :: (← encodeNamed caseKey levels rest)

/- The wire forms of the cases of a switch. -/
def encodeCases
    (caseKey : Text)
    (levels : Nat) :
    List (Case α) → Except Failure (List Value)
  | [] => .ok []
  | .mk guard result :: rest => do
    let guardValue ← encodeWithin caseKey levels guard
    let resultValue ← encodeWithin caseKey levels result
    return .map (caseFields caseKey guardValue resultValue) ::
      (← encodeCases caseKey levels rest)

/- The wire forms of the steps of an if-chain. -/
def encodeBranches
    (caseKey : Text)
    (levels : Nat) :
    List (Branch α) → Except Failure (List Value)
  | [] => .ok []
  | .test guard consequence :: rest => do
    let guardValue ← encodeWithin caseKey levels guard
    let value ← encodeWithin caseKey levels consequence
    return .map [("if", guardValue), ("then", value)] ::
      (← encodeBranches caseKey levels rest)
  | .otherwise consequence :: rest => do
    let value ← encodeWithin caseKey levels consequence
    return .map [("if", .bool true), ("then", value)] ::
      (← encodeBranches caseKey levels rest)

end

/- The wire form of a node, as far as there is room for it. -/
def encode
    [Room]
    (caseKey : Text)
    (node : Node α) :
    Except Failure Value :=
  encodeWithin caseKey Room.wireLevels node

/- The name under which the guard of a case stands by default. -/
def defaultCaseKey : Text := "condidion"

------------------------------------------------------------
-- Dumping
------------------------------------------------------------

variable [Room]

/- The layout with a number of blanks for each level of nesting. -/
def indentedBy (width : Int) : Except Failure Json.Layout :=
  match Text.margin width with
  | .ok unit => .ok (.indented unit)
  | .error error => .error (.width error)

/-
  The JSON text of a node's wire form. The layout is looked at
  when there is a wire form to lay out.
-/
def dump
    (layout : Except Failure Json.Layout)
    (caseKey : Text)
    (node : Node α) :
    Except Failure Text := do
  let wire ← encode caseKey node
  match Json.encode (← layout) wire with
  | .ok text => return text
  | .error .notFinite => throw .notFinite
  | .error .nestedTooDeeply => throw .nestedTooDeeply

end Wire

end ExperimentScript
