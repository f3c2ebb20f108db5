import ExperimentScript.Script.Node

/-
  The names of nodes in messages and listings.

  Key definitions include:
    * `ExperimentScript.Node.label`
-/

namespace ExperimentScript

/- The name of an operator with one operand. -/
def UnaryOp.label : UnaryOp → Text
  | .negate => "Negate"
  | .not => "Not"

/- The name of an operator with two operands. -/
def BinaryOp.label : BinaryOp → Text
  | .modulo => "Mod"
  | .divide => "Div"
  | .greater => "Gt"
  | .less => "Lt"
  | .equals => "Equals"
  | .lessEqual => "Lte"
  | .greaterEqual => "Gte"

/- The name of an operator with any number of operands. -/
def VariadicOp.label : VariadicOp → Text
  | .sum => "Sum"
  | .product => "Product"
  | .or => "Or"
  | .and => "And"
  | .coalesce => "Coalesce"

/- The name of a part that is no node. -/
def Fragment.label : Fragment → Text
  | .case => "Case"
  | .branch => "Branch"
  | .always => "AlwaysTrue"
  | .positional => "PositionalArgs"
  | .named => "NamedArgs"
  | .missing => []

/- The name of a node. -/
def Node.label
    {α : Type} :
    Node α → Text
  | .sequence _ _ => "Sequence"
  | .assign _ _ _ => "Assign"
  | .return _ _ => "Return"
  | .variable _ _ => "VarRef"
  | .literal _ _ _ => "Literal"
  | .array _ _ => "ArrayLit"
  | .index _ _ _ => "Index"
  | .call _ _ _ => "OperatorCall"
  | .callNamed _ _ _ => "OperatorCall"
  | .unary op _ _ => op.label
  | .binary op _ _ _ => op.label
  | .variadic op _ _ => op.label
  | .switch _ _ => "Switch"
  | .cond _ _ => "Cond"
  | .fragment part => part.label

end ExperimentScript
