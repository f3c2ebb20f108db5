import ExperimentScript.Parser.Expression

/-
  Trees and values that are the same but for some parts.

  Two values are the same but for certain texts, and two trees
  with equal marks but for the values of their embedded
  constants. What may stand in the places that differ is
  given. What parsing reads off a tree while it is being built
  is the same for both, so that steps that build on trees that
  are the same in this way give such trees again.

  Key definitions include:
    * `ExperimentScript.AllRelated`
    * `ExperimentScript.Fields.Related`
    * `ExperimentScript.Value.SameBut`
    * `ExperimentScript.Node.SameBut`

  Main declarations:
    * `ExperimentScript.Fields.Related.set`
    * `ExperimentScript.Node.SameBut.callee?_eq`
    * `ExperimentScript.Chain.SameBut.combine`
-/

namespace ExperimentScript

------------------------------------------------------------
-- Related Lists
------------------------------------------------------------

/- Two lists are as long, and what is at the same place is related. -/
inductive AllRelated
    {α β : Type}
    (related : α → β → Prop) :
    List α → List β → Prop where
  | nil : AllRelated related [] []
  | cons
      {first : α}
      {other : β}
      {rest : List α}
      {others : List β}
      (hFirst : related first other)
      (hRest : AllRelated related rest others) :
      AllRelated related (first :: rest) (other :: others)

/- Two lists of fields have the same names and related values. -/
inductive Fields.Related
    {α β : Type}
    (related : α → β → Prop) :
    Fields α → Fields β → Prop where
  | nil : Related related [] []
  | cons
      {name : Text}
      {first : α}
      {other : β}
      {rest : Fields α}
      {others : Fields β}
      (hFirst : related first other)
      (hRest : Related related rest others) :
      Related related ((name, first) :: rest)
        ((name, other) :: others)

section Lists

variable {α β : Type} {related : α → β → Prop}

theorem AllRelated.append
    {first more : List α}
    {other moreOther : List β}
    (hFirst : AllRelated related first other)
    (hMore : AllRelated related more moreOther) :
    AllRelated related (first ++ more) (other ++ moreOther) := by
  induction hFirst with
  | nil => exact hMore
  | cons hFirst _ ih => exact .cons hFirst ih

theorem AllRelated.pair
    {first second : α}
    {other otherSecond : β}
    (hFirst : related first other)
    (hSecond : related second otherSecond) :
    AllRelated related [first, second] [other, otherSecond] :=
  .cons hFirst (.cons hSecond .nil)

theorem Fields.Related.set
    {fields : Fields α}
    {others : Fields β}
    {value : α}
    {other : β}
    (hFields : Fields.Related related fields others)
    (hValue : related value other)
    (name : Text) :
    Fields.Related related (fields.set name value)
      (others.set name other) := by
  induction hFields with
  | nil => exact .cons hValue .nil
  | cons hFirst hRest ih =>
      simp only [Fields.set]
      split
      · exact .cons hValue hRest
      · exact .cons hFirst ih

end Lists

------------------------------------------------------------
-- Values
------------------------------------------------------------

/-
  Two values are the same but for texts of the first, in whose
  places a given relation allows other values.
-/
inductive Value.SameBut
    (differ : Text → Value → Prop) :
    Value → Value → Prop where
  | refl (value : Value) : SameBut differ value value
  | text
      {text : Text}
      {other : Value}
      (hDiffer : differ text other) :
      SameBut differ (.text text) other
  | list
      {values others : List Value}
      (hValues : AllRelated (SameBut differ) values others) :
      SameBut differ (.list values) (.list others)
  | map
      {fields others : Fields Value}
      (hFields : Fields.Related (SameBut differ) fields others) :
      SameBut differ (.map fields) (.map others)

------------------------------------------------------------
-- Nodes
------------------------------------------------------------

mutual

/-
  Two trees are the same, marks included, but for the values
  of embedded constants: of these, and the mark they share, a
  given relation holds.
-/
inductive Node.SameBut
    (differ : Value → Value → Span → Prop) :
    Node Span → Node Span → Prop where
  | sequence
      {nodes others : List (Node Span)}
      {mark : Span}
      (hNodes : AllRelated (Node.SameBut differ) nodes others) :
      SameBut differ (.sequence nodes mark) (.sequence others mark)
  | assign
      {name : Text}
      {value other : Node Span}
      {mark : Span}
      (hValue : Node.SameBut differ value other) :
      SameBut differ (.assign name value mark)
        (.assign name other mark)
  | return
      {value other : Node Span}
      {mark : Span}
      (hValue : Node.SameBut differ value other) :
      SameBut differ (.return value mark) (.return other mark)
  | variable (name : Text) (mark : Span) :
      SameBut differ (.variable name mark) (.variable name mark)
  | literal (value : Value) (mark : Span) :
      SameBut differ (.literal value false mark)
        (.literal value false mark)
  | embedded
      {value other : Value}
      {mark : Span}
      (hDiffer : differ value other mark) :
      SameBut differ (.literal value true mark)
        (.literal other true mark)
  | array
      {nodes others : List (Node Span)}
      {mark : Span}
      (hNodes : AllRelated (Node.SameBut differ) nodes others) :
      SameBut differ (.array nodes mark) (.array others mark)
  | index
      {base otherBase position other : Node Span}
      {mark : Span}
      (hBase : Node.SameBut differ base otherBase)
      (hPosition : Node.SameBut differ position other) :
      SameBut differ (.index base position mark)
        (.index otherBase other mark)
  | call
      {name : Text}
      {nodes others : List (Node Span)}
      {mark : Span}
      (hNodes : AllRelated (Node.SameBut differ) nodes others) :
      SameBut differ (.call name nodes mark)
        (.call name others mark)
  | callNamed
      {name : Text}
      {fields others : Fields (Node Span)}
      {mark : Span}
      (hFields :
        Fields.Related (Node.SameBut differ) fields others) :
      SameBut differ (.callNamed name fields mark)
        (.callNamed name others mark)
  | unary
      {op : UnaryOp}
      {operand other : Node Span}
      {mark : Span}
      (hOperand : Node.SameBut differ operand other) :
      SameBut differ (.unary op operand mark)
        (.unary op other mark)
  | binary
      {op : BinaryOp}
      {left otherLeft right otherRight : Node Span}
      {mark : Span}
      (hLeft : Node.SameBut differ left otherLeft)
      (hRight : Node.SameBut differ right otherRight) :
      SameBut differ (.binary op left right mark)
        (.binary op otherLeft otherRight mark)
  | variadic
      {op : VariadicOp}
      {nodes others : List (Node Span)}
      {mark : Span}
      (hNodes : AllRelated (Node.SameBut differ) nodes others) :
      SameBut differ (.variadic op nodes mark)
        (.variadic op others mark)
  | switch
      {cases others : List (Case Span)}
      {mark : Span}
      (hCases : Node.CasesSameBut differ cases others) :
      SameBut differ (.switch cases mark) (.switch others mark)
  | cond
      {branches others : List (Branch Span)}
      {mark : Span}
      (hBranches : Node.BranchesSameBut differ branches others) :
      SameBut differ (.cond branches mark) (.cond others mark)
  | fragment (part : Fragment) :
      SameBut differ (.fragment part) (.fragment part)

/- This holds of the nodes of two lists of cases. -/
inductive Node.CasesSameBut
    (differ : Value → Value → Span → Prop) :
    List (Case Span) → List (Case Span) → Prop where
  | nil : CasesSameBut differ [] []
  | cons
      {guard otherGuard result other : Node Span}
      {cases others : List (Case Span)}
      (hGuard : Node.SameBut differ guard otherGuard)
      (hResult : Node.SameBut differ result other)
      (hRest : Node.CasesSameBut differ cases others) :
      CasesSameBut differ (.mk guard result :: cases)
        (.mk otherGuard other :: others)

/- This holds of the nodes of two lists of steps of an if-chain. -/
inductive Node.BranchesSameBut
    (differ : Value → Value → Span → Prop) :
    List (Branch Span) → List (Branch Span) → Prop where
  | nil : BranchesSameBut differ [] []
  | test
      {guard otherGuard consequence other : Node Span}
      {branches others : List (Branch Span)}
      (hGuard : Node.SameBut differ guard otherGuard)
      (hConsequence : Node.SameBut differ consequence other)
      (hRest : Node.BranchesSameBut differ branches others) :
      BranchesSameBut differ (.test guard consequence :: branches)
        (.test otherGuard other :: others)
  | otherwise
      {consequence other : Node Span}
      {branches others : List (Branch Span)}
      (hConsequence : Node.SameBut differ consequence other)
      (hRest : Node.BranchesSameBut differ branches others) :
      BranchesSameBut differ (.otherwise consequence :: branches)
        (.otherwise other :: others)

end

------------------------------------------------------------
-- What Parsing Reads Off A Tree
------------------------------------------------------------

namespace Node

variable {differ : Value → Value → Span → Prop}

namespace SameBut

variable {node other : Node Span}

theorem mark?_eq (hSame : SameBut differ node other) :
    node.mark? = other.mark? := by
  cases hSame <;> rfl

theorem span_eq (hSame : SameBut differ node other) :
    node.span = other.span := by
  rw [span, span, hSame.mark?_eq]

theorem callee?_eq (hSame : SameBut differ node other) :
    Production.callee? node = Production.callee? other := by
  cases hSame <;> rfl

end SameBut

end Node

------------------------------------------------------------
-- Chains
------------------------------------------------------------

namespace Chain

/- Nodes that are the same in this way, open for the same operator. -/
structure SameBut
    (differ : Value → Value → Span → Prop)
    (chain other : Chain) : Prop where
  node : Node.SameBut differ chain.node other.node
  open? : chain.open? = other.open?

namespace SameBut

variable {differ : Value → Value → Span → Prop}
variable {chain other : Chain}
variable {operand otherOperand : Node Span}

theorem extend
    (hChain : SameBut differ chain other)
    (hOperand : Node.SameBut differ operand otherOperand)
    (op : VariadicOp)
    (span : Span) :
    SameBut differ (chain.extend op operand span)
      (other.extend op otherOperand span) := by
  rcases chain with ⟨node, opened⟩
  rcases other with ⟨otherNode, otherOpened⟩
  rcases hChain with ⟨hNode, hOpened⟩
  cases hOpened
  have hPair :
      SameBut differ
        ⟨.variadic op [node, operand] span, some op⟩
        ⟨.variadic op [otherNode, otherOperand] span, some op⟩ :=
    ⟨.variadic (.pair hNode hOperand), rfl⟩
  cases hNode with
  | variadic hNodes =>
      simp only [Chain.extend]
      split
      · exact
          ⟨.variadic (hNodes.append (.cons hOperand .nil)), rfl⟩
      · exact hPair
  | _ => exact hPair

theorem combine
    (hChain : SameBut differ chain other)
    (hOperand : Node.SameBut differ operand otherOperand)
    (kind : TokenKind) :
    SameBut differ (chain.combine kind operand)
      (other.combine kind otherOperand) := by
  have hSpan := hChain.node.span_eq
  have hRight := hOperand.span_eq
  simp only [Chain.combine, hSpan, hRight]
  split
  · split
    · exact hChain.extend (.unary hOperand) _ _
    · exact hChain.extend hOperand _ _
  · split
    · exact ⟨.binary hChain.node hOperand, rfl⟩
    · exact ⟨.unary (.binary hChain.node hOperand), rfl⟩

end SameBut

end Chain

end ExperimentScript
