import Mathlib.Algebra.Group.Int.Defs
import Mathlib.Algebra.Group.Nat.Defs
import ExperimentScript.Format.Constant
import ExperimentScript.Text.Integer
import ExperimentScript.Script.Node

/-
  The shape of script trees.

  A tree has the shape of a script when its assignments stand
  among statements, its operators have as many operands as
  they need, only the last step of an if-chain is without a
  guard, its names are identifiers, and its constants are
  ones that a script can spell. Embedded constants may be
  asked to name their fields by identifiers as well.

  Key definitions include:
    * `ExperimentScript.Value.isBounded`
    * `ExperimentScript.Value.isNamed`
    * `ExperimentScript.Node.isShaped`
    * `ExperimentScript.Node.isScript`
    * `ExperimentScript.Node.unmark`
-/

namespace ExperimentScript

------------------------------------------------------------
-- Names Of Fields
------------------------------------------------------------

namespace Fields

variable {α : Type}

/- The names of some fields in their order. -/
def names (fields : Fields α) : List Text :=
  fields.map Prod.fst

/- Whether no name occurs twice. -/
def areDistinct (fields : Fields α) : Bool :=
  decide fields.names.Nodup

end Fields

------------------------------------------------------------
-- Constants
------------------------------------------------------------

namespace Value

/- Whether a constant is neither a list nor a map. -/
def isScalar : Value → Bool
  | .list _ | .map _ => false
  | _ => true

mutual

/-
  Whether the numbers of a constant are finite or of at most
  as many digits as integers may have, and no map names a
  field twice.
-/
def isBounded : Value → Bool
  | .int value => decide (value.natAbs < 10 ^ Text.maxIntegerDigits)
  | .float value => value.isFinite
  | .list items => areBounded items
  | .map fields => Fields.areDistinct fields && haveBounded fields
  | .null | .bool _ | .text _ => true

/- Whether this holds of all of some constants. -/
def areBounded : List Value → Bool
  | [] => true
  | item :: items => isBounded item && areBounded items

/- Whether this holds of the values of some fields. -/
def haveBounded : List (Text × Value) → Bool
  | [] => true
  | (_, value) :: fields => isBounded value && haveBounded fields

end

mutual

/- Whether all maps of a constant name their fields by identifiers. -/
def isNamed : Value → Bool
  | .list items => areNamed items
  | .map fields => haveNamed fields
  | _ => true

/- Whether this holds of all of some constants. -/
def areNamed : List Value → Bool
  | [] => true
  | item :: items => isNamed item && areNamed items

/- Whether this holds of some fields and of their values. -/
def haveNamed : List (Text × Value) → Bool
  | [] => true
  | (name, value) :: fields =>
    Format.isName name && isNamed value && haveNamed fields

end

end Value

------------------------------------------------------------
-- Trees
------------------------------------------------------------

namespace Node

variable {α : Type}

mutual

/-
  Whether an expression has the shape of one that is read
  from a script. The names of embedded fields are asked for
  when `named` is set.
-/
def isShaped (named : Bool) : Node α → Bool
  | .sequence body _ => areStatements named body
  | .assign _ _ _ => false
  | .return value _ => isShaped named value
  | .variable name _ => Format.isName name
  | .literal value true _ =>
    value.isBounded && (!named || value.isNamed)
  | .literal value false _ => value.isBounded && value.isScalar
  | .array items _ => areShaped named items
  | .index base position _ =>
    isShaped named base && isShaped named position
  | .call name arguments _ =>
    Format.isName name && !arguments.isEmpty &&
      areShaped named arguments
  | .callNamed name arguments _ =>
    Format.isName name && Fields.areDistinct arguments &&
      haveShaped named arguments
  | .unary _ operand _ => isShaped named operand
  | .binary _ left right _ =>
    isShaped named left && isShaped named right
  | .variadic _ operands _ =>
    decide (2 ≤ operands.length) && areShaped named operands
  | .switch cases _ => areCases named cases
  | .cond steps _ => areSteps named true steps
  | .fragment _ => false

/- Whether some nodes can stand as the statements of a block. -/
def areStatements (named : Bool) : List (Node α) → Bool
  | [] => true
  | .assign name value _ :: rest =>
    Format.isName name && isShaped named value &&
      areStatements named rest
  | node :: rest => isShaped named node && areStatements named rest

/- Whether all of some expressions are shaped. -/
def areShaped (named : Bool) : List (Node α) → Bool
  | [] => true
  | node :: rest => isShaped named node && areShaped named rest

/- Whether some named arguments are shaped and their names identifiers. -/
def haveShaped (named : Bool) : List (Text × Node α) → Bool
  | [] => true
  | (name, node) :: rest =>
    Format.isName name && isShaped named node &&
      haveShaped named rest

/- Whether the cases of a switch are shaped. -/
def areCases (named : Bool) : List (Case α) → Bool
  | [] => true
  | .mk guard result :: rest =>
    isShaped named guard && isShaped named result &&
      areCases named rest

/-
  Whether the steps of an if-chain are shaped: the first has
  a guard, and none follows one without a guard.
-/
def areSteps
    (named : Bool)
    (isFirst : Bool) :
    List (Branch α) → Bool
  | [] => !isFirst
  | .test guard node :: rest =>
    isShaped named guard && isShaped named node &&
      areSteps named false rest
  | .otherwise node :: rest =>
    !isFirst && rest.isEmpty && isShaped named node

end

/- Whether a node can stand among the statements of a block. -/
def isStatement (named : Bool) : Node α → Bool
  | .assign name value _ =>
    Format.isName name && isShaped named value
  | node => isShaped named node

/- Whether a tree has the shape of a whole script. -/
def isScript (named : Bool) : Node α → Bool
  | .sequence body _ => areStatements named body
  | _ => false

@[simp] theorem areStatements_nil (named : Bool) :
    areStatements named ([] : List (Node α)) = true := rfl

@[simp] theorem areStatements_cons
    (named : Bool)
    (node : Node α)
    (rest : List (Node α)) :
    areStatements named (node :: rest) =
      (isStatement named node && areStatements named rest) := by
  cases node <;> rfl

@[simp] theorem areShaped_nil (named : Bool) :
    areShaped named ([] : List (Node α)) = true := rfl

@[simp] theorem areShaped_cons
    (named : Bool)
    (node : Node α)
    (rest : List (Node α)) :
    areShaped named (node :: rest) =
      (isShaped named node && areShaped named rest) := rfl

theorem areShaped_append
    (named : Bool)
    (nodes others : List (Node α)) :
    areShaped named (nodes ++ others) =
      (areShaped named nodes && areShaped named others) := by
  induction nodes with
  | nil => rfl
  | cons node nodes ih =>
      simp [ih, Bool.and_assoc]

/- A shaped expression can stand as a statement. -/
theorem isStatement_of_isShaped
    {named : Bool}
    {node : Node α}
    (hShaped : isShaped named node = true) :
    isStatement named node = true := by
  cases node <;> first
    | exact hShaped
    | simp [isShaped] at hShaped

/- A statement other than an assignment is an expression. -/
theorem isStatement_eq_isShaped
    {named : Bool}
    {node : Node α}
    (hPlain :
      ∀ name value mark, node = .assign name value mark → False) :
    isStatement named node = isShaped named node := by
  cases node <;> first
    | rfl
    | exact absurd rfl (hPlain _ _ _)

------------------------------------------------------------
-- Trees Without Marks
------------------------------------------------------------

mutual

/- A tree without what it is marked with. -/
def unmark : Node α → Node Unit
  | .sequence body _ => .sequence (unmarkAll body) ()
  | .assign name value _ => .assign name (unmark value) ()
  | .return value _ => .return (unmark value) ()
  | .variable name _ => .variable name ()
  | .literal value embedded _ => .literal value embedded ()
  | .array items _ => .array (unmarkAll items) ()
  | .index base position _ =>
    .index (unmark base) (unmark position) ()
  | .call name arguments _ => .call name (unmarkAll arguments) ()
  | .callNamed name arguments _ =>
    .callNamed name (unmarkArguments arguments) ()
  | .unary op operand _ => .unary op (unmark operand) ()
  | .binary op left right _ =>
    .binary op (unmark left) (unmark right) ()
  | .variadic op operands _ => .variadic op (unmarkAll operands) ()
  | .switch cases _ => .switch (unmarkCases cases) ()
  | .cond steps _ => .cond (unmarkSteps steps) ()
  | .fragment part => .fragment part

/- Some trees without their marks. -/
def unmarkAll : List (Node α) → List (Node Unit)
  | [] => []
  | node :: rest => unmark node :: unmarkAll rest

/- Some named arguments without their marks. -/
def unmarkArguments : List (Text × Node α) → List (Text × Node Unit)
  | [] => []
  | (name, node) :: rest => (name, unmark node) :: unmarkArguments rest

/- Some cases without their marks. -/
def unmarkCases : List (Case α) → List (Case Unit)
  | [] => []
  | .mk guard result :: rest =>
    .mk (unmark guard) (unmark result) :: unmarkCases rest

/- The steps of an if-chain without their marks. -/
def unmarkSteps : List (Branch α) → List (Branch Unit)
  | [] => []
  | .test guard node :: rest =>
    .test (unmark guard) (unmark node) :: unmarkSteps rest
  | .otherwise node :: rest =>
    .otherwise (unmark node) :: unmarkSteps rest

end

------------------------------------------------------------
-- Smaller Trees
------------------------------------------------------------

/- Something holds of all trees below a size. -/
def AllBelow
    (α : Type)
    (size : Nat)
    (holds : Node α → Prop) : Prop :=
  ∀ node : Node α, sizeOf node < size → holds node

namespace AllBelow

variable {holds : Node α → Prop}

theorem mono
    {size less : Nat}
    (hAll : AllBelow α size holds)
    (hLess : less ≤ size) :
    AllBelow α less holds :=
  fun node hSize => hAll node (by omega)

/- It holds of the first of some trees, if of all below their size. -/
theorem head
    {node : Node α}
    {rest : List (Node α)}
    (hAll : AllBelow α (sizeOf (node :: rest)) holds) :
    holds node :=
  hAll node (by rw [List.cons.sizeOf_spec]; omega)

theorem tail
    {β : Type}
    [SizeOf β]
    {item : β}
    {rest : List β}
    (hAll : AllBelow α (sizeOf (item :: rest)) holds) :
    AllBelow α (sizeOf rest) holds :=
  hAll.mono (by rw [List.cons.sizeOf_spec]; omega)

end AllBelow

end Node

end ExperimentScript
