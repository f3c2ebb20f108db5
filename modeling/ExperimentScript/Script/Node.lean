import ExperimentScript.Value

/-
  Script trees.

  Every node carries a mark of a type of the caller's
  choice: its span when it was read from a text, nothing
  when it was built by hand.

  Key definitions include:
    * `ExperimentScript.UnaryOp`
    * `ExperimentScript.BinaryOp`
    * `ExperimentScript.VariadicOp`
    * `ExperimentScript.Node`
    * `ExperimentScript.Node.same`
    * `ExperimentScript.Node.hasCase`
-/

namespace ExperimentScript

------------------------------------------------------------
-- Operators
------------------------------------------------------------

/- Operators with one operand. -/
inductive UnaryOp where
  | negate
  | not
deriving DecidableEq, Repr

/- Operators with two operands. -/
inductive BinaryOp where
  | modulo
  | divide
  | greater
  | less
  | equals
  | lessEqual
  | greaterEqual
deriving DecidableEq, Repr

/- Operators with any number of operands. -/
inductive VariadicOp where
  | sum
  | product
  | or
  | and
  | coalesce
deriving DecidableEq, Repr

/-
  Parts of trees that are no nodes of their own. A part is
  missing where something else stands in place of what should
  have it.
-/
inductive Fragment where
  | case
  | branch
  | always
  | positional
  | named
  | missing
deriving DecidableEq, Repr

------------------------------------------------------------
-- Trees
------------------------------------------------------------

mutual

/-
  A node of a script tree. A literal is embedded when it is
  written with a leading `@`. A fragment stands where a
  hand-built tree has a part that is no node.
-/
inductive Node (α : Type) where
  | sequence (statements : List (Node α)) (mark : α)
  | assign (name : Text) (value : Node α) (mark : α)
  | return (value : Node α) (mark : α)
  | variable (name : Text) (mark : α)
  | literal (value : Value) (embedded : Bool) (mark : α)
  | array (items : List (Node α)) (mark : α)
  | index (base index : Node α) (mark : α)
  | call (name : Text) (arguments : List (Node α)) (mark : α)
  | callNamed
      (name : Text)
      (arguments : List (Text × Node α))
      (mark : α)
  | unary (op : UnaryOp) (operand : Node α) (mark : α)
  | binary (op : BinaryOp) (left right : Node α) (mark : α)
  | variadic (op : VariadicOp) (operands : List (Node α)) (mark : α)
  | switch (cases : List (Case α)) (mark : α)
  | cond (branches : List (Branch α)) (mark : α)
  | fragment (part : Fragment)

/- A guard with the node that is taken when it holds. -/
inductive Case (α : Type) where
  | mk (guard result : Node α)

/- A step of an if-chain; the last may be without a guard. -/
inductive Branch (α : Type) where
  | test (guard consequence : Node α)
  | otherwise (consequence : Node α)

end

instance {α : Type} : Inhabited (Node α) := ⟨.fragment .case⟩

namespace Node

variable {α β : Type}

/- The mark of a node. -/
def mark? : Node α → Option α
  | .sequence _ mark | .assign _ _ mark | .return _ mark
  | .variable _ mark | .literal _ _ mark | .array _ mark
  | .index _ _ mark | .call _ _ mark | .callNamed _ _ mark
  | .unary _ _ mark | .binary _ _ _ mark | .variadic _ _ mark
  | .switch _ mark | .cond _ mark => some mark
  | .fragment _ => none

------------------------------------------------------------
-- Sameness
------------------------------------------------------------

mutual

/-
  Whether two trees are the same but for their marks: named
  arguments whatever their order, constants by value.
-/
def same : Node α → Node β → Bool
  | .sequence as _, .sequence bs _ => sameNodes as bs
  | .assign x a _, .assign y b _ => x == y && same a b
  | .return a _, .return b _ => same a b
  | .variable x _, .variable y _ => x == y
  | .literal v e _, .literal w f _ => v.same w && e == f
  | .array as _, .array bs _ => sameNodes as bs
  | .index a i _, .index b j _ => same a b && same i j
  | .call x as _, .call y bs _ => x == y && sameNodes as bs
  | .callNamed x as _, .callNamed y bs _ =>
    x == y && as.length == bs.length && sameArguments as bs
  | .unary o a _, .unary p b _ => o == p && same a b
  | .binary o a c _, .binary p b d _ =>
    o == p && same a b && same c d
  | .variadic o as _, .variadic p bs _ =>
    o == p && sameNodes as bs
  | .switch as _, .switch bs _ => sameCases as bs
  | .cond as _, .cond bs _ => sameBranches as bs
  | .fragment p, .fragment q => p == q
  | _, _ => false

/- Whether two lists of nodes are the same node by node. -/
def sameNodes : List (Node α) → List (Node β) → Bool
  | [], [] => true
  | a :: as, b :: bs => same a b && sameNodes as bs
  | _, _ => false

/- Whether every argument has a same one of its name. -/
def sameArguments :
    List (Text × Node α) → List (Text × Node β) → Bool
  | [], _ => true
  | (name, a) :: as, bs =>
    (match bs.lookup name with
      | some b => same a b
      | none => false) && sameArguments as bs

/- Whether two lists of cases are the same case by case. -/
def sameCases : List (Case α) → List (Case β) → Bool
  | [], [] => true
  | .mk g a :: as, .mk h b :: bs =>
    same g h && same a b && sameCases as bs
  | _, _ => false

/- Whether two if-chains are the same step by step. -/
def sameBranches : List (Branch α) → List (Branch β) → Bool
  | [], [] => true
  | .test g a :: as, .test h b :: bs =>
    same g h && same a b && sameBranches as bs
  | .otherwise a :: as, .otherwise b :: bs =>
    same a b && sameBranches as bs
  | _, _ => false

end

------------------------------------------------------------
-- Cases
------------------------------------------------------------

mutual

/- Whether a switch with a case occurs in a tree. -/
def hasCase : Node α → Bool
  | .switch cases _ => !cases.isEmpty
  | .sequence items _ | .array items _ => anyHasCase items
  | .call _ items _ | .variadic _ items _ => anyHasCase items
  | .callNamed _ arguments _ => argumentsHaveCase arguments
  | .assign _ value _ | .return value _ => hasCase value
  | .unary _ value _ => hasCase value
  | .index left right _ => hasCase left || hasCase right
  | .binary _ left right _ => hasCase left || hasCase right
  | .cond branches _ => branchesHaveCase branches
  | .variable _ _ | .literal _ _ _ | .fragment _ => false

/- Whether one occurs in one of some trees. -/
def anyHasCase : List (Node α) → Bool
  | [] => false
  | node :: nodes => hasCase node || anyHasCase nodes

/- Whether one occurs in one of some named arguments. -/
def argumentsHaveCase : List (Text × Node α) → Bool
  | [] => false
  | (_, node) :: rest => hasCase node || argumentsHaveCase rest

/- Whether one occurs in an if-chain. -/
def branchesHaveCase : List (Branch α) → Bool
  | [] => false
  | .test guard node :: rest =>
    hasCase guard || hasCase node || branchesHaveCase rest
  | .otherwise node :: rest => hasCase node || branchesHaveCase rest

end

end Node

end ExperimentScript
