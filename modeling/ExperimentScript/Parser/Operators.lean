import ExperimentScript.Script.Node
import ExperimentScript.Token
import ExperimentScript.Span

/-
  Operators between operands: how tightly each binds, and
  the node that it makes of its operands.

  Key definitions include:
    * `ExperimentScript.TokenKind.power?`
    * `ExperimentScript.Node.span`
    * `ExperimentScript.Chain.combine`
-/

namespace ExperimentScript

------------------------------------------------------------
-- Binding Powers
------------------------------------------------------------

/-
  How tightly an operator binds on its left and on its
  right. All associate to the left, so the right is tighter.
-/
def TokenKind.power? : TokenKind → Option (Nat × Nat)
  | .or | .coalesce => some (1, 2)
  | .and => some (3, 4)
  | .equal | .notEqual => some (5, 6)
  | .greater | .less | .greaterEqual | .lessEqual => some (7, 8)
  | .plus | .minus => some (9, 10)
  | .star | .slash | .percent => some (11, 12)
  | _ => none

/- How tightly the operators before an operand bind. -/
def unaryPower : Nat := 13

/- How tightly an index and a call bind. -/
def postfixPower : Nat := 15

/- The operators that stand between two operands. -/
def TokenKind.betweenOperands : List TokenKind :=
  TokenKind.all.filter fun kind => kind.power?.isSome

/- The operator with any number of operands that a sign joins into. -/
def TokenKind.variadic? : TokenKind → Option VariadicOp
  | .plus | .minus => some .sum
  | .star => some .product
  | .or => some .or
  | .and => some .and
  | .coalesce => some .coalesce
  | _ => none

/- The operator with two operands that a sign stands for. -/
def TokenKind.binary? : TokenKind → Option BinaryOp
  | .percent => some .modulo
  | .slash => some .divide
  | .greater => some .greater
  | .less => some .less
  | .equal => some .equals
  | .lessEqual => some .lessEqual
  | .greaterEqual => some .greaterEqual
  | _ => none

------------------------------------------------------------
-- Combining Operands
------------------------------------------------------------

/- Where a node was read. -/
def Node.span (node : Node Span) : Span :=
  node.mark?.getD ⟨.start, .start⟩

/-
  A node that is being built from the left, and the operator
  it can still take operands for without nesting.
-/
structure Chain where
  node : Node Span
  open? : Option VariadicOp

namespace Chain

/- One more operand of an operator with any number of them. -/
def extend
    (chain : Chain)
    (op : VariadicOp)
    (operand : Node Span)
    (span : Span) :
    Chain :=
  match chain.node with
  | .variadic inner operands _ =>
    if chain.open? = some op ∧ inner = op then
      ⟨.variadic op (operands ++ [operand]) span, some op⟩
    else
      ⟨.variadic op [chain.node, operand] span, some op⟩
  | _ => ⟨.variadic op [chain.node, operand] span, some op⟩

/-
  The node for an operator between what is on its left and
  its right operand. A difference is a sum with a negated
  operand, and unequal is the negation of equal.
-/
def combine
    (chain : Chain)
    (kind : TokenKind)
    (right : Node Span) :
    Chain :=
  let left := chain.node
  let span := left.span.through right.span
  match kind.variadic? with
  | some op =>
    let operand :=
      if kind = .minus then .unary .negate right right.span
      else right
    chain.extend op operand span
  | none =>
    match kind.binary? with
    | some op => ⟨.binary op left right span, none⟩
    | none =>
      ⟨.unary .not (.binary .equals left right span) span, none⟩

end Chain

end ExperimentScript
