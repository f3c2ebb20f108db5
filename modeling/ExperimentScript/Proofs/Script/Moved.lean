import ExperimentScript.Parser.Expression
import ExperimentScript.Proofs.Script.Shape

/-
  Trees, tokens and errors that are moved to other places.

  Only marks and spans change, each in the same way. What a
  tree is, whether it can be called and which operator it is
  open for do not depend on where it is.

  Key definitions include:
    * `ExperimentScript.Move`
    * `ExperimentScript.Node.moved`
    * `ExperimentScript.Token.moved`
    * `ExperimentScript.SyntaxError.moved`

  Main declarations:
    * `ExperimentScript.Node.unmark_moved`
    * `ExperimentScript.Chain.combine_moved`
-/

namespace ExperimentScript

/-
  A way to move spans, which takes the span from one to another
  to the span between those.
-/
structure Move where
  span : Span → Span
  through :
    ∀ first last : Span,
      span (first.through last) = (span first).through (span last)

------------------------------------------------------------
-- Trees
------------------------------------------------------------

namespace Node

mutual

/- A tree with all its marks moved. -/
def moved (move : Span → Span) : Node Span → Node Span
  | .sequence body mark => .sequence (movedAll move body) (move mark)
  | .assign name value mark =>
    .assign name (moved move value) (move mark)
  | .return value mark => .return (moved move value) (move mark)
  | .variable name mark => .variable name (move mark)
  | .literal value embedded mark =>
    .literal value embedded (move mark)
  | .array items mark => .array (movedAll move items) (move mark)
  | .index base position mark =>
    .index (moved move base) (moved move position) (move mark)
  | .call name arguments mark =>
    .call name (movedAll move arguments) (move mark)
  | .callNamed name arguments mark =>
    .callNamed name (movedArguments move arguments) (move mark)
  | .unary op operand mark =>
    .unary op (moved move operand) (move mark)
  | .binary op left right mark =>
    .binary op (moved move left) (moved move right) (move mark)
  | .variadic op operands mark =>
    .variadic op (movedAll move operands) (move mark)
  | .switch cases mark => .switch (movedCases move cases) (move mark)
  | .cond steps mark => .cond (movedSteps move steps) (move mark)
  | .fragment part => .fragment part

/- Some trees with all their marks moved. -/
def movedAll (move : Span → Span) :
    List (Node Span) → List (Node Span)
  | [] => []
  | node :: rest => moved move node :: movedAll move rest

/- Some named arguments with all their marks moved. -/
def movedArguments (move : Span → Span) :
    List (Text × Node Span) → List (Text × Node Span)
  | [] => []
  | (name, node) :: rest =>
    (name, moved move node) :: movedArguments move rest

/- Some cases with all their marks moved. -/
def movedCases (move : Span → Span) :
    List (Case Span) → List (Case Span)
  | [] => []
  | .mk guard result :: rest =>
    .mk (moved move guard) (moved move result) ::
      movedCases move rest

/- The steps of an if-chain with all their marks moved. -/
def movedSteps (move : Span → Span) :
    List (Branch Span) → List (Branch Span)
  | [] => []
  | .test guard node :: rest =>
    .test (moved move guard) (moved move node) ::
      movedSteps move rest
  | .otherwise node :: rest =>
    .otherwise (moved move node) :: movedSteps move rest

end

variable (move : Span → Span)

theorem movedAll_eq_map (nodes : List (Node Span)) :
    movedAll move nodes = nodes.map (moved move) := by
  induction nodes with
  | nil => rfl
  | cons node nodes ih => rw [movedAll, ih, List.map_cons]

/- Arguments are moved where they stand. -/
theorem movedArguments_set
    (arguments : Fields (Node Span))
    (name : Text)
    (node : Node Span) :
    movedArguments move (arguments.set name node) =
      (show Fields (Node Span) from
        movedArguments move arguments).set name (moved move node) := by
  induction arguments with
  | nil => rfl
  | cons first rest ih =>
      by_cases hName : first.1 = name
      · simp only [Fields.set, movedArguments, if_pos hName]
      · simp only [Fields.set, movedArguments, if_neg hName, ih]

mutual

/- A tree that is moved is the same tree. -/
theorem unmark_moved : ∀ node : Node Span,
    (moved move node).unmark = node.unmark
  | .sequence body _ => by
      rw [moved, unmark, unmark, unmark_movedAll body]
  | .assign _ value _ => by
      rw [moved, unmark, unmark, unmark_moved value]
  | .return value _ => by
      rw [moved, unmark, unmark, unmark_moved value]
  | .variable _ _ => rfl
  | .literal _ _ _ => rfl
  | .array items _ => by
      rw [moved, unmark, unmark, unmark_movedAll items]
  | .index base position _ => by
      rw [moved, unmark, unmark, unmark_moved base,
        unmark_moved position]
  | .call _ arguments _ => by
      rw [moved, unmark, unmark, unmark_movedAll arguments]
  | .callNamed _ arguments _ => by
      rw [moved, unmark, unmark, unmark_movedArguments arguments]
  | .unary _ operand _ => by
      rw [moved, unmark, unmark, unmark_moved operand]
  | .binary _ left right _ => by
      rw [moved, unmark, unmark, unmark_moved left,
        unmark_moved right]
  | .variadic _ operands _ => by
      rw [moved, unmark, unmark, unmark_movedAll operands]
  | .switch cases _ => by
      rw [moved, unmark, unmark, unmark_movedCases cases]
  | .cond steps _ => by
      rw [moved, unmark, unmark, unmark_movedSteps steps]
  | .fragment _ => rfl

theorem unmark_movedAll : ∀ nodes : List (Node Span),
    unmarkAll (movedAll move nodes) = unmarkAll nodes
  | [] => rfl
  | node :: rest => by
      rw [movedAll, unmarkAll, unmarkAll, unmark_moved node,
        unmark_movedAll rest]

theorem unmark_movedArguments :
    ∀ arguments : List (Text × Node Span),
      unmarkArguments (movedArguments move arguments) =
        unmarkArguments arguments
  | [] => rfl
  | (name, node) :: rest => by
      rw [movedArguments, unmarkArguments, unmarkArguments,
        unmark_moved node, unmark_movedArguments rest]

theorem unmark_movedCases : ∀ cases : List (Case Span),
    unmarkCases (movedCases move cases) = unmarkCases cases
  | [] => rfl
  | .mk guard result :: rest => by
      rw [movedCases, unmarkCases, unmarkCases, unmark_moved guard,
        unmark_moved result, unmark_movedCases rest]

theorem unmark_movedSteps : ∀ steps : List (Branch Span),
    unmarkSteps (movedSteps move steps) = unmarkSteps steps
  | [] => rfl
  | .test guard node :: rest => by
      rw [movedSteps, unmarkSteps, unmarkSteps, unmark_moved guard,
        unmark_moved node, unmark_movedSteps rest]
  | .otherwise node :: rest => by
      rw [movedSteps, unmarkSteps, unmarkSteps, unmark_moved node,
        unmark_movedSteps rest]

end

theorem mark?_moved (node : Node Span) :
    (node.moved move).mark? = node.mark?.map move := by
  cases node <;> rfl

theorem callee?_moved (node : Node Span) :
    Production.callee? (node.moved move) =
      (Production.callee? node).map fun callee =>
        (callee.1, move callee.2) := by
  cases node <;> rfl

/- The span of a node with a mark moves with the mark. -/
theorem span_moved
    {node : Node Span}
    (hMark : node.mark?.isSome = true) :
    (node.moved move).span = move node.span := by
  rcases Option.isSome_iff_exists.mp hMark with ⟨mark, hSome⟩
  rw [span, span, mark?_moved, hSome]
  rfl

end Node

------------------------------------------------------------
-- Chains
------------------------------------------------------------

namespace Chain

/- A chain with its node moved. -/
def moved
    (move : Span → Span)
    (chain : Chain) :
    Chain :=
  ⟨chain.node.moved move, chain.open?⟩

variable (move : Span → Span) (chain : Chain)

theorem extend_moved
    (op : VariadicOp)
    (operand : Node Span)
    (span : Span) :
    (chain.extend op operand span).moved move =
      (chain.moved move).extend op (operand.moved move)
        (move span) := by
  rcases chain with ⟨node, opened⟩
  cases node with
  | variadic inner operands mark =>
      simp only [extend, moved, Node.moved]
      by_cases hOpen : opened = some op ∧ inner = op
      · simp only [if_pos hOpen, Node.moved, Node.movedAll_eq_map,
          List.map_append, List.map_cons, List.map_nil]
      · simp only [if_neg hOpen, Node.moved, Node.movedAll]
        exact (if_neg hOpen).symm
  | _ => rfl

theorem isSome_mark?_extend
    (op : VariadicOp)
    (operand : Node Span)
    (span : Span) :
    (chain.extend op operand span).node.mark?.isSome = true := by
  unfold extend
  split
  · split <;> rfl
  · rfl

/- Operands that are moved are combined like others. -/
theorem combine_moved
    (move : Move)
    {right : Node Span}
    (hLeft : chain.node.mark?.isSome = true)
    (hRight : right.mark?.isSome = true)
    (kind : TokenKind) :
    (chain.combine kind right).moved move.span =
      (chain.moved move.span).combine kind
        (right.moved move.span) := by
  have hSpan := Node.span_moved move.span hLeft
  have hRightSpan := Node.span_moved move.span hRight
  have hNode :
      (chain.moved move.span).node = chain.node.moved move.span :=
    rfl
  simp only [combine, hNode, hSpan, hRightSpan, ← move.through]
  split
  · rw [extend_moved]
    split <;> rfl
  · split <;> rfl

theorem isSome_mark?_combine
    (kind : TokenKind)
    (right : Node Span) :
    (chain.combine kind right).node.mark?.isSome = true := by
  unfold combine
  split
  · exact isSome_mark?_extend _ _ _ _
  · split <;> rfl

end Chain

------------------------------------------------------------
-- Tokens And Errors
------------------------------------------------------------

/- A token at another place. -/
def Token.moved
    (move : Span → Span)
    (token : Token) :
    Token :=
  { token with span := move token.span }

namespace SyntaxError

variable (move : Span → Span) (error : SyntaxError)

/- An error about a token at another place. -/
def moved : SyntaxError :=
  { error with found := error.found.moved move }

/- What an error says does not depend on where its token is. -/
theorem message_moved :
    (error.moved move).message = error.message := rfl

end SyntaxError

end ExperimentScript
