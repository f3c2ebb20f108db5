import ExperimentScript.Proofs.Lexer.Layout
import ExperimentScript.Proofs.Parser.Construed
import ExperimentScript.Proofs.Parser.Traced

/-
  Reading keeps the operands of a script.

  From left to right a tree lists its names and constants in
  the order of the tokens that they were read from, each of
  them once. Only the connectives before cases and after tests
  are left out, and a call that repeats the name of an
  argument loses one of its values.

  Key definitions include:
    * `ExperimentScript.Item`
    * `ExperimentScript.Node.operands`
    * `ExperimentScript.Lists`
    * `ExperimentScript.Drops`

  Main declarations:
    * `ExperimentScript.Lists.unique`
    * `ExperimentScript.Row.leaves`
    * `ExperimentScript.operands_of_parse`
-/

namespace ExperimentScript

------------------------------------------------------------
-- Operands Of Trees
------------------------------------------------------------

/- A name, a constant or an embedded constant, whose tokens are taken together. -/
inductive Item where
  | name (name : Text)
  | constant (value : Value)
  | embedded (value : Value)

namespace Node

variable {α : Type}

mutual

/-
  The names and constants of a tree from left to right: the
  names that are assigned to, of variables, of calls and of
  arguments.
-/
def operands : Node α → List Item
  | .sequence nodes _ | .array nodes _ => operandsOfNodes nodes
  | .assign name value _ => .name name :: operands value
  | .return value _ | .unary _ value _ => operands value
  | .variable name _ => [.name name]
  | .literal value false _ => [.constant value]
  | .literal value true _ => [.embedded value]
  | .index left right _ | .binary _ left right _ =>
    operands left ++ operands right
  | .call name arguments _ =>
    .name name :: operandsOfNodes arguments
  | .callNamed name arguments _ =>
    .name name :: operandsOfNamed arguments
  | .variadic _ nodes _ => operandsOfNodes nodes
  | .switch cases _ => operandsOfCases cases
  | .cond branches _ => operandsOfBranches branches
  | .fragment _ => []

/- The names and constants of some trees. -/
def operandsOfNodes : List (Node α) → List Item
  | [] => []
  | node :: nodes => operands node ++ operandsOfNodes nodes

/- The names of some arguments, each before those of its value. -/
def operandsOfNamed : List (Text × Node α) → List Item
  | [] => []
  | (name, node) :: rest =>
    .name name :: (operands node ++ operandsOfNamed rest)

/- The names and constants of some cases. -/
def operandsOfCases : List (Case α) → List Item
  | [] => []
  | .mk guard result :: rest =>
    operands guard ++ (operands result ++ operandsOfCases rest)

/- The names and constants of an if-chain. -/
def operandsOfBranches : List (Branch α) → List Item
  | [] => []
  | .test guard consequence :: rest =>
    operands guard ++
      (operands consequence ++ operandsOfBranches rest)
  | .otherwise consequence :: rest =>
    operands consequence ++ operandsOfBranches rest

end

end Node

/- The names and constants of an entry. -/
def Entry.operands : Entry → List Item
  | .name text => [.name text]
  | .part node => node.operands

namespace Node

theorem operandsOfNodes_eq (nodes : List (Node Span)) :
    operandsOfNodes nodes =
      (nodes.map Entry.part).flatMap Entry.operands := by
  induction nodes with
  | nil => rfl
  | cons node nodes ih =>
      rw [operandsOfNodes, ih]
      rfl

theorem operandsOfNamed_eq
    (arguments : List (Text × Node Span)) :
    operandsOfNamed arguments =
      (Entry.named arguments).flatMap Entry.operands := by
  induction arguments with
  | nil => rfl
  | cons argument arguments ih =>
      rw [operandsOfNamed, ih]
      rfl

theorem operandsOfCases_eq (cases : List (Case Span)) :
    operandsOfCases cases =
      ((cases.flatMap Case.parts).map Entry.part).flatMap
        Entry.operands := by
  induction cases with
  | nil => rfl
  | cons entry cases ih =>
      rcases entry with ⟨guard, result⟩
      rw [operandsOfCases, ih]
      rfl

theorem operandsOfBranches_eq (branches : List (Branch Span)) :
    operandsOfBranches branches =
      ((branches.flatMap Branch.parts).map Entry.part).flatMap
        Entry.operands := by
  induction branches with
  | nil => rfl
  | cons step branches ih =>
      rcases step with ⟨guard, consequence⟩ | ⟨consequence⟩
      · rw [operandsOfBranches, ih]
        rfl
      · rw [operandsOfBranches, ih]
        rfl

/- The operands of a node are those of its entries. -/
theorem operands_of_entries?
    {node : Node Span}
    {entries : List Entry}
    (hEntries : node.entries? = some entries) :
    node.operands = entries.flatMap Entry.operands := by
  cases node <;> cases hEntries <;>
    simp [operands, Entry.operands, operandsOfNodes_eq,
      operandsOfNamed_eq, operandsOfCases_eq, operandsOfBranches_eq]

end Node

------------------------------------------------------------
-- Operands Of Tokens
------------------------------------------------------------

/-
  Tokens list their names and constants one after the other.
  What comes after an `@` is one constant.
-/
inductive Lists (strict : Bool) : List Token → List Item → Prop where
  | nil : Lists strict [] []
  | name
      {token : Token}
      {tokens : List Token}
      {items : List Item}
      (hName : token.kind = .identifier)
      (hRest : Lists strict tokens items) :
      Lists strict (token :: tokens) (.name token.text :: items)
  | constant
      {token : Token}
      {tokens : List Token}
      {value : Value}
      {items : List Item}
      (hConstant : token.constant? = some value)
      (hRest : Lists strict tokens items) :
      Lists strict (token :: tokens) (.constant value :: items)
  | embedded
      {sign : Token}
      {tokens others : List Token}
      {value : Value}
      {items : List Item}
      (hSign : sign.kind = .at)
      (hValue : Embedded.Denotes strict tokens value)
      (hRest : Lists strict others items) :
      Lists strict (sign :: (tokens ++ others))
        (.embedded value :: items)
  | other
      {token : Token}
      {tokens : List Token}
      {items : List Item}
      (hKind : token.kind.isKept = false)
      (hRest : Lists strict tokens items) :
      Lists strict (token :: tokens) items

/- Some items that are connectives by name are left out. -/
inductive Drops : List Item → List Item → Prop where
  | nil : Drops [] []
  | keep
      {item : Item}
      {items others : List Item}
      (hRest : Drops items others) :
      Drops (item :: items) (item :: others)
  | drop
      {name : Text}
      {items others : List Item}
      (hName : name = "case" ∨ name = "then")
      (hRest : Drops items others) :
      Drops (.name name :: items) others

namespace Drops

theorem refl (items : List Item) : Drops items items := by
  induction items with
  | nil => exact .nil
  | cons item items ih => exact .keep ih

theorem append
    {items others more rest : List Item}
    (hItems : Drops items others)
    (hMore : Drops more rest) :
    Drops (items ++ more) (others ++ rest) := by
  induction hItems with
  | nil => exact hMore
  | keep _ ih => exact .keep ih
  | drop hName _ ih => exact .drop hName ih

end Drops

/- A kind of which tokens are constants is kept. -/
theorem Token.isKept_of_constant?
    {token : Token}
    {value : Value}
    (hConstant : token.constant? = some value) :
    token.kind.isKept = true ∧ token.kind ≠ .identifier ∧
      token.kind ≠ .at := by
  unfold constant? at hConstant
  split at hConstant
  all_goals
    first
    | contradiction
    | rename_i hKind
      rw [hKind]
      decide

namespace Lists

variable {strict : Bool}
variable {tokens others : List Token}
variable {items more : List Item}

theorem append
    (hTokens : Lists strict tokens items)
    (hOthers : Lists strict others more) :
    Lists strict (tokens ++ others) (items ++ more) := by
  induction hTokens with
  | nil => exact hOthers
  | name hName _ ih => exact .name hName ih
  | constant hConstant _ ih => exact .constant hConstant ih
  | embedded hSign hValue _ ih =>
      rw [List.cons_append, List.append_assoc]
      exact .embedded hSign hValue ih
  | other hKind _ ih => exact .other hKind ih

/- Tokens list their names and constants in one way. -/
theorem unique
    (hTokens : Lists strict tokens items)
    (hSame : Lists strict tokens more) :
    items = more := by
  induction hTokens generalizing more with
  | nil =>
      cases hSame
      rfl
  | name hName _ ih =>
      cases hSame with
      | name _ hRest => rw [ih hRest]
      | constant hConstant =>
          exact absurd hName (Token.isKept_of_constant? hConstant).2.1
      | embedded hSign =>
          rw [hName] at hSign
          cases hSign
      | other hKind =>
          rw [hName] at hKind
          cases hKind
  | constant hConstant _ ih =>
      have hKept := Token.isKept_of_constant? hConstant
      cases hSame with
      | name hName => exact absurd hName hKept.2.1
      | constant hOther hRest =>
          rw [hConstant] at hOther
          cases hOther
          rw [ih hRest]
      | embedded hSign => exact absurd hSign hKept.2.2
      | other hKind =>
          rw [hKept.1] at hKind
          cases hKind
  | @embedded sign inner rest value items hSign hValue _ ih =>
      generalize hAll : sign :: (inner ++ rest) = all at hSame
      cases hSame with
      | nil => cases hAll
      | name hName =>
          cases hAll
          rw [hSign] at hName
          cases hName
      | constant hConstant =>
          cases hAll
          exact absurd hSign (Token.isKept_of_constant? hConstant).2.2
      | embedded _ hOther hRest =>
          rcases List.cons.inj hAll with ⟨-, hInner⟩
          rcases hValue.unique hOther hInner with ⟨-, rfl, rfl⟩
          rw [ih hRest]
      | other hKind =>
          cases hAll
          rw [hSign] at hKind
          cases hKind
  | other hKind _ ih =>
      cases hSame with
      | name hName =>
          rw [hName] at hKind
          cases hKind
      | constant hConstant =>
          rw [(Token.isKept_of_constant? hConstant).1] at hKind
          cases hKind
      | embedded hSign =>
          rw [hSign] at hKind
          cases hKind
      | other _ hRest => exact ih hRest

end Lists

------------------------------------------------------------
-- From Tokens To Trees
------------------------------------------------------------

section Trees

variable {strict : Bool}

/- The operands of tokens are those of a tree, but for some connectives. -/
def Leaves
    (strict : Bool)
    (tokens : List Token)
    (operands : List Item) : Prop :=
  ∃ items, Lists strict tokens items ∧ Drops items operands

mutual

/- In a row the operands of the entries are left. -/
theorem Row.leaves :
    ∀ {tokens : List Token} {entries : List Entry},
      Row strict tokens entries →
      (∀ place, ¬ RepeatsArgument tokens place) →
      Leaves strict tokens (entries.flatMap Entry.operands)
  | _, _, .nil, _ => ⟨[], .nil, .nil⟩
  | _, _, .silent hSilent hRest, hNames => by
    have hLess := fun place hRepeats =>
      hNames place (RepeatsArgument.of_infix hRepeats
        (List.suffix_cons _ _).isInfix)
    rcases hRest.leaves hLess with ⟨items, hItems, hDrops⟩
    rcases hSilent with hKind | ⟨hName, hWord⟩
    · exact ⟨items, .other hKind hItems, hDrops⟩
    · exact ⟨_, .name hName hItems, .drop hWord hDrops⟩
  | _, _, .name hName hRest, hNames => by
    have hLess := fun place hRepeats =>
      hNames place (RepeatsArgument.of_infix hRepeats
        (List.suffix_cons _ _).isInfix)
    rcases hRest.leaves hLess with ⟨items, hItems, hDrops⟩
    exact ⟨_, .name hName hItems, .keep hDrops⟩
  | _, _, .part hNode hRest, hNames => by
    have hFirst := fun place hRepeats =>
      hNames place (RepeatsArgument.of_infix hRepeats
        (List.prefix_append _ _).isInfix)
    have hLess := fun place hRepeats =>
      hNames place (RepeatsArgument.of_infix hRepeats
        (List.suffix_append _ _).isInfix)
    rcases hNode.leaves hFirst with ⟨first, hItems, hDrops⟩
    rcases hRest.leaves hLess with ⟨rest, hMore, hDropsMore⟩
    exact
      ⟨first ++ rest, hItems.append hMore,
        hDrops.append hDropsMore⟩

/- Of the tokens that form a node its operands are left. -/
theorem Forms.leaves :
    ∀ {tokens : List Token} {node : Node Span},
      Forms strict tokens node →
      (∀ place, ¬ RepeatsArgument tokens place) →
      Leaves strict tokens node.operands
  | _, _, .variable hName, _ =>
    ⟨_, .name hName .nil, .refl _⟩
  | _, _, .constant hConstant, _ =>
    ⟨_, .constant hConstant .nil, .refl _⟩
  | _, _, .embedded hSign hValue, _ => by
    have hOne : Lists strict (_ :: (_ ++ [])) _ :=
      .embedded hSign hValue .nil
    rw [List.append_nil] at hOne
    exact ⟨_, hOne, .refl _⟩
  | _, _, .node _ hEntries _ hRow, hNames => by
    rw [Node.operands_of_entries? hEntries]
    exact hRow.leaves hNames
  | _, _, .repeated _ _ hRepeats, hNames =>
    absurd hRepeats (hNames _)

end

end Trees

/-
  If no call of a script repeats the name of an argument, its
  tree lists from left to right exactly the names and constants
  of its tokens, of which there is one list, but for some of
  the connectives.
-/
theorem operands_of_parse
    {strict : Bool}
    {text : Text}
    {tokens : List Token}
    {tree : Node Span}
    (hTokens : tokenize text = .ok tokens)
    (hTree : parse strict text = .ok tree)
    (hNames : ∀ place, ¬ RepeatsArgument tokens place) :
    ∃ items,
      Lists strict tokens items ∧
        (∀ others, Lists strict tokens others → others = items) ∧
        Drops items tree.operands := by
  rcases segment_of_parse hTokens hTree with
    ⟨body, close, nodes, rfl, hClose, rfl, hSegment⟩
  have hBody : ∀ place, ¬ RepeatsArgument body place :=
    fun place hRepeats =>
      hNames place
        (hRepeats.of_infix (List.prefix_append _ _).isInfix)
  rcases hSegment.row.leaves hBody with ⟨items, hItems, hDrops⟩
  have hEnd : Lists strict [close] [] :=
    .other (by rw [hClose]; rfl) .nil
  have hAll := hItems.append hEnd
  rw [List.append_nil] at hAll
  refine ⟨items, hAll, fun others hOthers => hOthers.unique hAll, ?_⟩
  rw [Node.operands, Node.operandsOfNodes_eq]
  exact hDrops

/- Both connectives, an argument with a name and an embedded constant. -/
theorem operands_of_parse_connectives :
    ∃ tokens tree,
      tokenize "a = switch {case b => f(c = @{d: 1})} if (a) then 2" =
          .ok tokens ∧
        parse true
            "a = switch {case b => f(c = @{d: 1})} if (a) then 2" =
          .ok tree ∧
        (∀ place, ¬ RepeatsArgument tokens place) ∧
        ∃ items,
          Lists true tokens items ∧
            (∀ others, Lists true tokens others → others = items) ∧
            Drops items tree.operands := by
  have hCommas :
      (tokenize
            "a = switch {case b => f(c = @{d: 1})} if (a) then 2").toOption.map
          (fun tokens =>
            tokens.all fun token => decide (token.kind ≠ .comma)) =
        some true := by
    decide +kernel
  have hParses :
      (parse true
          "a = switch {case b => f(c = @{d: 1})} if (a) then 2").toOption.isSome =
        true := by
    decide +kernel
  cases hTokens :
      tokenize
        "a = switch {case b => f(c = @{d: 1})} if (a) then 2" with
  | error error =>
      rw [hTokens] at hCommas
      cases hCommas
  | ok tokens =>
      cases hTree :
          parse true
            "a = switch {case b => f(c = @{d: 1})} if (a) then 2" with
      | error error =>
          rw [hTree] at hParses
          cases hParses
      | ok tree =>
          rw [hTokens] at hCommas
          have hNone := List.all_eq_true.mp (Option.some.inj hCommas)
          have hNames : ∀ place, ¬ RepeatsArgument tokens place := by
            intro place hRepeats
            rcases hRepeats.exists_comma with ⟨token, hMem, hKind⟩
            exact of_decide_eq_true (hNone token hMem) hKind
          exact
            ⟨tokens, tree, rfl, rfl, hNames,
              operands_of_parse hTokens hTree hNames⟩

end ExperimentScript
