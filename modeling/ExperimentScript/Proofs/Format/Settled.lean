import ExperimentScript.Format.Script
import ExperimentScript.Proofs.Script.Nesting

/-
  Which shaped trees have a notation.

  A shaped tree has one just when the fields of its embedded
  constants are named by identifiers, the margin of its
  deepest line can be made and it nests no deeper than there
  is room for. Where it has none, the failure says which of
  the three is the reason.

  Key definitions include:
    * `ExperimentScript.Format.Options.fits`
    * `ExperimentScript.Format.deepest`
    * `ExperimentScript.Format.Settles`
    * `ExperimentScript.Format.IsSettled`

  Main declarations:
    * `ExperimentScript.Format.Settles.bind`
    * `ExperimentScript.Format.isSettled`
    * `ExperimentScript.Format.settles_script`
-/

namespace ExperimentScript

namespace Format

variable {α β γ : Type}
variable {options : Options}
variable {named : Bool}
variable {depth levels : Nat}

------------------------------------------------------------
-- Settled Outcomes
------------------------------------------------------------

/-
  An outcome is a success just when the names are identifiers,
  the margins fit and there are levels enough, and a failure
  for one of these reasons where it is none.
-/
def Settles
    (outcome : Except Failure β)
    (named fits reached : Bool) : Prop :=
  match outcome with
  | .ok _ => named = true ∧ fits = true ∧ reached = true
  | .error (.noFieldName _) => named = false
  | .error (.width _) => fits = false
  | .error .nestedTooDeeply => reached = false
  | .error _ => False

namespace Settles

variable {outcome : Except Failure β}
variable {named fits reached moreNamed moreFits moreReached : Bool}

theorem pure (result : β) :
    Settles (Pure.pure result : Except Failure β) true true true :=
  ⟨rfl, rfl, rfl⟩

theorem bind
    {next : β → Except Failure γ}
    (hFirst : Settles outcome named fits reached)
    (hNext :
      ∀ result,
        Settles (next result) moreNamed moreFits moreReached) :
    Settles (outcome >>= next) (named && moreNamed)
      (fits && moreFits) (reached && moreReached) := by
  cases outcome with
  | ok result =>
      rcases hFirst with ⟨rfl, rfl, rfl⟩
      exact hNext result
  | error failure =>
      cases failure <;> first
        | cases hFirst; rfl
        | exact hFirst.elim

/- What is made of a success does not matter. -/
theorem map
    (hOutcome : Settles outcome named fits reached)
    (make : β → γ) :
    Settles (outcome >>= fun result => Pure.pure (make result))
      named fits reached := by
  have hBind :=
    hOutcome.bind fun result => Settles.pure (make result)
  rwa [Bool.and_true, Bool.and_true, Bool.and_true] at hBind

/- A success, if nothing stands in its way. -/
theorem exists_ok
    (hOutcome : Settles outcome true true true) :
    ∃ result, outcome = .ok result := by
  cases outcome with
  | ok result => exact ⟨result, rfl⟩
  | error failure => cases failure <;> cases hOutcome

/- A failure of the margin or of the levels, if no name fails. -/
theorem exists_error
    (hOutcome : Settles outcome true fits reached)
    (hFails : (fits && reached) = false) :
    (fits = false ∧ ∃ error, outcome = .error (.width error)) ∨
      (reached = false ∧ outcome = .error .nestedTooDeeply) := by
  cases outcome with
  | ok result =>
      rcases hOutcome with ⟨_, rfl, rfl⟩
      cases hFails
  | error failure =>
      cases failure <;> first
        | exact .inl ⟨hOutcome, _, rfl⟩
        | exact .inr ⟨hOutcome, rfl⟩
        | cases hOutcome

/- A failure of a name, if only a name is no identifier. -/
theorem exists_noFieldName
    (hOutcome : Settles outcome false true true) :
    ∃ name, outcome = .error (.noFieldName name) := by
  cases outcome with
  | ok result => cases hOutcome.1
  | error failure =>
      cases failure <;> first
        | exact ⟨_, rfl⟩
        | cases hOutcome

end Settles

------------------------------------------------------------
-- Constants
------------------------------------------------------------

/- A bounded scalar has a notation. -/
theorem settles_constant
    {value : Value}
    (hBounded : value.isBounded = true)
    (hScalar : value.isScalar = true) :
    Settles (constant value) true true true := by
  cases value with
  | bool value => cases value <;> exact ⟨rfl, rfl, rfl⟩
  | float value =>
      simp only [Value.isBounded] at hBounded
      rw [constant, if_pos hBounded]
      exact ⟨rfl, rfl, rfl⟩
  | list items => cases hScalar
  | map fields => cases hScalar
  | _ => exact ⟨rfl, rfl, rfl⟩

/- After an `@` a bounded scalar takes no level. -/
theorem settles_scalar
    {strict : Bool}
    {value : Value}
    (hScalar : value.isScalar = true)
    (hBounded : value.isBounded = true) :
    Settles (embedded strict levels value) value.isNamed true
      (within levels value.brackets) := by
  have hBrackets : value.brackets = 0 := by
    cases value <;> first
      | rfl
      | cases hScalar
  have hNamed : value.isNamed = true := by
    cases value <;> first
      | rfl
      | cases hScalar
  have hConstant := settles_constant hBounded hScalar
  rw [hBrackets, hNamed, within_zero]
  cases value with
  | text content =>
      rw [embedded]
      exact ⟨rfl, rfl, rfl⟩
  | list items => cases hScalar
  | map fields => cases hScalar
  | _ =>
      rw [embedded]
      exact hConstant

mutual

/- An embedded constant has one if its fields have names. -/
theorem settles_embedded (strict : Bool) :
    ∀ (value : Value) (levels : Nat), value.isBounded = true →
      Settles (embedded strict levels value) value.isNamed true
        (within levels value.brackets)
  | .null, _ => settles_scalar rfl
  | .bool _, _ => settles_scalar rfl
  | .int _, _ => settles_scalar rfl
  | .float _, _ => settles_scalar rfl
  | .text _, _ => settles_scalar rfl
  | .list _, 0 => fun _ => within_none (Nat.succ_pos _)
  | .list items, levels + 1 => by
    intro hBounded
    rw [embedded, Value.brackets, Value.isNamed, within_succ]
    exact (settles_embeddedItems strict items levels hBounded).map _
  | .map _, 0 => fun _ => within_none (Nat.succ_pos _)
  | .map fields, levels + 1 => by
    intro hBounded
    rw [Value.isBounded, Bool.and_eq_true] at hBounded
    have hFields :=
      settles_embeddedFields strict fields levels hBounded.2
    rw [embedded, Value.brackets, Value.isNamed, within_succ]
    exact hFields.map _
termination_by value => sizeOf value

/- The items of a list. -/
theorem settles_embeddedItems (strict : Bool) :
    ∀ (items : List Value) (levels : Nat),
      Value.areBounded items = true →
      Settles (embeddedItems strict levels items)
        (Value.areNamed items) true
        (within levels (Value.bracketsItems items))
  | [], _ => fun _ => ⟨rfl, rfl, within_zero⟩
  | item :: items, levels => by
    intro hBounded
    rw [Value.areBounded, Bool.and_eq_true] at hBounded
    have hFirst := settles_embedded strict item levels hBounded.1
    have hRest :=
      settles_embeddedItems strict items levels hBounded.2
    rw [embeddedItems, Value.areNamed, Value.bracketsItems,
      within_max]
    exact hFirst.bind fun text => hRest.map (text :: ·)
termination_by items => sizeOf items

/- The fields of a map. -/
theorem settles_embeddedFields (strict : Bool) :
    ∀ (fields : List (Text × Value)) (levels : Nat),
      Value.haveBounded fields = true →
      Settles (embeddedFields strict levels fields)
        (Value.haveNamed fields) true
        (within levels (Value.bracketsFields fields))
  | [], _ => fun _ => ⟨rfl, rfl, within_zero⟩
  | (name, value) :: fields, levels => by
    intro hBounded
    rw [Value.haveBounded, Bool.and_eq_true] at hBounded
    have hFirst := settles_embedded strict value levels hBounded.1
    have hRest :=
      settles_embeddedFields strict fields levels hBounded.2
    rw [embeddedFields, Value.haveNamed, Value.bracketsFields,
      within_max]
    cases hName : isName name with
    | false => exact (rfl : false = false)
    | true =>
        simp only [Bool.not_true, Bool.false_eq_true, if_false,
          Bool.true_and]
        exact hFirst.bind fun text => hRest.map _
termination_by fields => sizeOf fields

end

------------------------------------------------------------
-- Margins
------------------------------------------------------------

variable [Room]

/- Whether the margin of a line at a depth can be made. -/
def Options.fits
    (options : Options)
    (depth : Nat) :
    Bool :=
  (Text.checkWidth (options.indent * depth)).isOk

/- A width can be made within these bounds. -/
theorem isOk_checkWidth (width : Int) :
    (Text.checkWidth width).isOk = true ↔
      -Text.widthLimit ≤ width ∧ width < Text.widthLimit ∧
        width ≤ Room.blanks := by
  unfold Text.checkWidth
  split
  · simp only [Except.isOk, Except.toBool, Bool.false_eq_true,
      false_iff]
    omega
  · split
    · simp only [Except.isOk, Except.toBool, Bool.false_eq_true,
        false_iff]
      omega
    · simp only [Except.isOk, Except.toBool, true_iff]
      omega

/- Where a deeper line fits, every other one does. -/
theorem fits_mono
    {deeper : Nat}
    (hDepth : depth ≤ deeper)
    (hFits : options.fits deeper = true) :
    options.fits depth = true := by
  rw [Options.fits, isOk_checkWidth] at hFits ⊢
  have hLimit : 0 < Text.widthLimit := by
    decide
  have hCast : (depth : Int) ≤ deeper := by
    omega
  by_cases hSign : 0 ≤ options.indent
  · have hUpper := Int.mul_le_mul_of_nonneg_left hCast hSign
    have hLower := Int.mul_nonneg hSign (Int.natCast_nonneg depth)
    omega
  · have hNegative : options.indent ≤ 0 := by
      omega
    have hLower :=
      Int.mul_le_mul_of_nonpos_left hNegative hCast
    have hUpper :=
      Int.mul_nonpos_of_nonpos_of_nonneg hNegative
        (Int.natCast_nonneg depth)
    omega

@[simp] theorem fits_zero : options.fits 0 = true := by
  rw [Options.fits, isOk_checkWidth]
  have hLimit : 0 < Text.widthLimit := by
    decide
  simp only [Int.natCast_zero, Int.mul_zero]
  omega

theorem fits_max (first second : Nat) :
    options.fits (max first second) =
      (options.fits first && options.fits second) := by
  cases hMax : options.fits (max first second) with
  | true =>
      rw [fits_mono (Nat.le_max_left first second) hMax,
        fits_mono (Nat.le_max_right first second) hMax]
      rfl
  | false =>
      rcases Nat.le_total first second with hLess | hLess
      · rw [Nat.max_eq_right hLess] at hMax
        rw [hMax, Bool.and_false]
      · rw [Nat.max_eq_left hLess] at hMax
        rw [hMax, Bool.false_and]

theorem settles_margin :
    Settles (options.margin depth) true (options.fits depth)
      true := by
  unfold Options.margin Text.margin Options.fits
  cases Text.checkWidth (options.indent * depth) with
  | ok _ => exact ⟨rfl, rfl, rfl⟩
  | error error => exact (rfl : false = false)

------------------------------------------------------------
-- Deepest Lines
------------------------------------------------------------

mutual

/-
  How deep the deepest line is that begins inside a node at a
  depth, or zero if none does. Blocks and switches with
  something in them begin lines one deeper.
-/
def deepest (depth : Nat) : Node α → Nat
  | .sequence body _ => deepestLine (depth + 1) body
  | .assign _ value _ | .return value _ => deepest depth value
  | .unary _ operand _ => deepest depth operand
  | .array items _ | .call _ items _ => deepestOf depth items
  | .variadic _ items _ => deepestOf depth items
  | .callNamed _ arguments _ => deepestNamed depth arguments
  | .index left right _ | .binary _ left right _ =>
    max (deepest depth left) (deepest depth right)
  | .switch cases _ => deepestCase (depth + 1) cases
  | .cond steps _ => deepestStep depth steps
  | .variable _ _ | .literal _ _ _ | .fragment _ => 0

/- How deep it is among statements, each on a line of its own. -/
def deepestLine (depth : Nat) : List (Node α) → Nat
  | [] => 0
  | node :: rest =>
    max (max depth (deepest depth node)) (deepestLine depth rest)

/- How deep it is in some nodes. -/
def deepestOf (depth : Nat) : List (Node α) → Nat
  | [] => 0
  | node :: rest => max (deepest depth node) (deepestOf depth rest)

/- How deep it is in some named arguments. -/
def deepestNamed (depth : Nat) : List (Text × Node α) → Nat
  | [] => 0
  | (_, node) :: rest =>
    max (deepest depth node) (deepestNamed depth rest)

/- How deep it is among cases, each on a line of its own. -/
def deepestCase (depth : Nat) : List (Case α) → Nat
  | [] => 0
  | .mk guard result :: rest =>
    max
      (max depth (max (deepest depth guard) (deepest depth result)))
      (deepestCase depth rest)

/- How deep it is in the steps of an if-chain. -/
def deepestStep (depth : Nat) : List (Branch α) → Nat
  | [] => 0
  | .test guard node :: rest =>
    max (max (deepest depth node) (deepest depth guard))
      (deepestStep depth rest)
  | .otherwise node :: rest =>
    max (deepest depth node) (deepestStep depth rest)

end

------------------------------------------------------------
-- Lists Of Nodes
------------------------------------------------------------

/- Whether what is written of a shaped node is settled. -/
def IsSettled
    (options : Options)
    (named : Bool)
    (node : Node α) : Prop :=
  ∀ depth levels : Nat,
    node.isShaped named = true →
    Settles (bare options depth levels node) (node.isShaped true)
      (options.fits (deepest depth node))
      (within levels (node.nesting Value.brackets))

/- On no level nothing is written, and every node takes one. -/
theorem isSettled_of_succ
    {node : Node α}
    (hBelow :
      ∀ depth levels : Nat,
        node.isShaped named = true →
        Settles (bare options depth (levels + 1) node)
          (node.isShaped true)
          (options.fits (deepest depth node))
          (within (levels + 1) (node.nesting Value.brackets))) :
    IsSettled options named node := by
  intro depth levels hShaped
  cases levels with
  | zero =>
      rw [bare]
      exact within_none (Node.nesting_pos _ node)
  | succ levels => exact hBelow depth levels hShaped

theorem settles_nodes
    {items : List (Node α)}
    (hSettled :
      Node.AllBelow α (sizeOf items) (IsSettled options named))
    (hShaped : Node.areShaped named items = true) :
    Settles (nodes options depth levels items)
      (Node.areShaped true items)
      (options.fits (deepestOf depth items))
      (within levels (Node.nestingOf Value.brackets items)) := by
  induction items with
  | nil => exact ⟨rfl, fits_zero, within_zero⟩
  | cons node rest ih =>
      rw [Node.areShaped_cons, Bool.and_eq_true] at hShaped
      have hFirst := hSettled.head depth levels hShaped.1
      have hRest := ih hSettled.tail hShaped.2
      rw [nodes, deepestOf, fits_max, Node.areShaped_cons,
        Node.nestingOf, within_max]
      exact hFirst.bind fun text => hRest.map (text :: ·)

theorem settles_namedNodes
    {arguments : List (Text × Node α)}
    (hSettled :
      Node.AllBelow α (sizeOf arguments)
        (IsSettled options named))
    (hShaped : Node.haveShaped named arguments = true) :
    Settles (namedNodes options depth levels arguments)
      (Node.haveShaped true arguments)
      (options.fits (deepestNamed depth arguments))
      (within levels
        (Node.nestingNamed Value.brackets arguments)) := by
  induction arguments with
  | nil => exact ⟨rfl, fits_zero, within_zero⟩
  | cons argument rest ih =>
      rcases argument with ⟨name, node⟩
      rw [Node.haveShaped, Bool.and_eq_true, Bool.and_eq_true]
        at hShaped
      have hFirst :=
        hSettled node (by simp; omega) depth levels hShaped.1.2
      have hRest := ih hSettled.tail hShaped.2
      rw [namedNodes, deepestNamed, fits_max, Node.haveShaped,
        hShaped.1.1, Bool.true_and, Node.nestingNamed, within_max]
      exact hFirst.bind fun text => hRest.map _

theorem settles_furtherOperands
    {op : VariadicOp}
    {operands : List (Node α)}
    (hSettled :
      Node.AllBelow α (sizeOf operands) (IsSettled options named))
    (hShaped : Node.areShaped named operands = true) :
    Settles (furtherOperands options depth levels op operands)
      (Node.areShaped true operands)
      (options.fits (deepestOf depth operands))
      (within levels
        (Node.nestingOf Value.brackets operands)) := by
  induction operands with
  | nil => exact ⟨rfl, fits_zero, within_zero⟩
  | cons node rest ih =>
      rw [Node.areShaped_cons, Bool.and_eq_true] at hShaped
      have hFirst := hSettled.head depth levels hShaped.1
      have hRest := ih hSettled.tail hShaped.2
      rw [deepestOf, fits_max, Node.areShaped_cons, Node.nestingOf,
        within_max]
      by_cases hNegated :
          ∃ operand mark, node = .unary .negate operand mark
      · rcases hNegated with ⟨operand, mark, rfl⟩
        have hInner :=
          hSettled operand (by simp; omega) depth (levels - 1)
            hShaped.1
        rw [within_pred (Node.nesting_pos _ operand)] at hInner
        rw [furtherOperands]
        split
        · exact hInner.bind fun text => hRest.map _
        · exact hFirst.bind fun text => hRest.map _
      · rw [furtherOperands]
        · exact hFirst.bind fun text => hRest.map _
        · intro operand mark hNode
          exact hNegated ⟨operand, mark, hNode⟩

------------------------------------------------------------
-- Lines And Chains
------------------------------------------------------------

/- A line is settled by its margin and by what stands on it. -/
theorem Settles.line
    {next : Text → Except Failure β}
    {named fits reached : Bool}
    (hNext : ∀ margin, Settles (next margin) named fits reached) :
    Settles (options.margin depth >>= next) named
      (options.fits depth && fits) reached := by
  have hMargin :
      Settles (options.margin depth) true (options.fits depth)
        true :=
    settles_margin
  have hLine := hMargin.bind hNext
  rwa [Bool.true_and, Bool.true_and] at hLine

theorem settles_statements
    {nodes : List (Node α)}
    (hSettled :
      Node.AllBelow α (sizeOf nodes) (IsSettled options named))
    (hShaped : Node.areStatements named nodes = true) :
    Settles (statements options depth levels nodes)
      (Node.areStatements true nodes)
      (options.fits (deepestLine depth nodes))
      (within levels (Node.nestingOf Value.brackets nodes)) := by
  induction nodes with
  | nil => exact ⟨rfl, fits_zero, within_zero⟩
  | cons node rest ih =>
      rw [Node.areStatements_cons, Bool.and_eq_true] at hShaped
      have hRest := ih hSettled.tail hShaped.2
      rw [deepestLine, fits_max, fits_max, Bool.and_assoc,
        Node.areStatements_cons, Node.nestingOf, within_max]
      by_cases hAssign :
          ∃ name value mark, node = .assign name value mark
      · rcases hAssign with ⟨name, value, mark, rfl⟩
        have hNode := hShaped.1
        simp only [Node.isStatement, Bool.and_eq_true] at hNode
        have hValue :=
          hSettled value (by simp; omega) depth (levels - 1) hNode.2
        rw [within_pred (Node.nesting_pos _ value)] at hValue
        rw [statements, deepest, Node.isStatement, hNode.1,
          Bool.true_and, Node.nesting]
        exact
          .line fun margin => hValue.bind fun text => hRest.map _
      · have hPlain :
            ∀ name value mark, node = .assign name value mark →
              False :=
          fun name value mark hSame =>
            hAssign ⟨name, value, mark, hSame⟩
        rw [Node.isStatement_eq_isShaped hPlain] at hShaped ⊢
        have hFirst := hSettled.head depth levels hShaped.1
        rw [statements]
        · exact
            .line fun margin => hFirst.bind fun text => hRest.map _
        · exact hPlain

theorem settles_cases
    {found : List (Case α)}
    (hSettled :
      Node.AllBelow α (sizeOf found) (IsSettled options named))
    (hShaped : Node.areCases named found = true) :
    Settles (cases options depth levels found)
      (Node.areCases true found)
      (options.fits (deepestCase depth found))
      (within levels (Node.nestingCases Value.brackets found)) := by
  induction found with
  | nil => exact ⟨rfl, fits_zero, within_zero⟩
  | cons first rest ih =>
      rcases first with ⟨guard, result⟩
      simp only [Node.areCases, Bool.and_eq_true] at hShaped
      rcases hShaped with ⟨⟨hGuardShaped, hResultShaped⟩, hCases⟩
      have hGuard :=
        hSettled guard (by simp; omega) depth levels hGuardShaped
      have hResult :=
        hSettled result (by simp; omega) depth levels hResultShaped
      have hRest := ih hSettled.tail hCases
      rw [cases, deepestCase, fits_max, fits_max, fits_max,
        Node.areCases, Node.nestingCases, within_max, within_max]
      simp only [Bool.and_assoc]
      exact
        .line fun margin =>
          hGuard.bind fun guardText =>
            hResult.bind fun text => hRest.map _

theorem settles_branches
    {isFirst : Bool}
    {steps : List (Branch α)}
    (hSettled :
      Node.AllBelow α (sizeOf steps) (IsSettled options named))
    (hShaped : Node.areSteps named isFirst steps = true) :
    Settles (branches options depth levels isFirst steps)
      (Node.areSteps true isFirst steps)
      (options.fits (deepestStep depth steps))
      (within levels (Node.nestingSteps Value.brackets steps)) := by
  induction steps generalizing isFirst with
  | nil =>
      cases isFirst with
      | true => cases hShaped
      | false => exact ⟨rfl, fits_zero, within_zero⟩
  | cons step rest ih =>
      cases step with
      | test guard node =>
          rw [Node.areSteps, Bool.and_eq_true, Bool.and_eq_true]
            at hShaped
          rcases hShaped with
            ⟨⟨hGuardShaped, hNodeShaped⟩, hSteps⟩
          have hGuard :=
            hSettled guard (by simp; omega) depth levels
              hGuardShaped
          have hNode :=
            hSettled node (by simp; omega) depth levels hNodeShaped
          have hRest := ih hSettled.tail hSteps
          rw [branches, deepestStep, fits_max, fits_max,
            Node.areSteps,
            Bool.and_comm (guard.isShaped true), Bool.and_assoc,
            Bool.and_assoc, Node.nestingSteps,
            Nat.max_comm (guard.nesting _), within_max, within_max,
            Bool.and_assoc]
          exact
            hNode.bind fun text =>
              hGuard.bind fun guardText => hRest.map _
      | otherwise node =>
          simp only [Node.areSteps, Bool.and_eq_true,
            List.isEmpty_iff] at hShaped
          rcases hShaped with ⟨⟨hLater, rfl⟩, hNodeShaped⟩
          have hNode :=
            hSettled node (by simp; omega) depth levels hNodeShaped
          rw [branches, deepestStep, deepestStep, Nat.max_zero,
            Node.areSteps, hLater, Node.nestingSteps,
            Node.nestingSteps, Nat.max_zero]
          exact hNode.map _

------------------------------------------------------------
-- All Shaped Trees
------------------------------------------------------------

/- The closing brace stands no deeper than the lines before it. -/
theorem Settles.braces
    {lines : Except Failure (List Text)}
    {named reached : Bool}
    {deep : Nat}
    {make : List Text → Text → Text}
    (hLines : Settles lines named (options.fits deep) reached)
    (hDeep : depth ≤ deep) :
    Settles
      (do
        let found ← lines
        let margin ← options.margin depth
        return make found margin)
      named (options.fits deep) reached := by
  have hBraces :=
    hLines.bind fun found =>
      (settles_margin : Settles (options.margin depth) _ _ _).map
        (make found)
  rwa [Bool.and_true, Bool.and_true, ← fits_max,
    Nat.max_eq_left hDeep] at hBraces

theorem isSettled_sequence
    {body : List (Node α)}
    {mark : α}
    (hSettled :
      Node.AllBelow α (sizeOf (Node.sequence body mark))
        (IsSettled options named)) :
    IsSettled options named (.sequence body mark) := by
  refine isSettled_of_succ fun depth levels hShaped => ?_
  have hLines :
      Settles (statements options (depth + 1) levels body)
        (Node.areStatements true body)
        (options.fits (deepestLine (depth + 1) body))
        (within levels (Node.nestingOf Value.brackets body)) :=
    settles_statements (hSettled.mono (by simp)) hShaped
  rw [Node.nesting, within_succ]
  cases body with
  | nil =>
      rw [bare]
      exact ⟨rfl, fits_zero, within_zero⟩
  | cons first rest =>
      have hDeep :
          depth ≤ deepestLine (depth + 1) (first :: rest) := by
        rw [deepestLine]
        omega
      rw [bare]
      exact hLines.braces hDeep

theorem isSettled_switch
    {found : List (Case α)}
    {mark : α}
    (hSettled :
      Node.AllBelow α (sizeOf (Node.switch found mark))
        (IsSettled options named)) :
    IsSettled options named (.switch found mark) := by
  refine isSettled_of_succ fun depth levels hShaped => ?_
  have hLines :
      Settles (cases options (depth + 1) levels found)
        (Node.areCases true found)
        (options.fits (deepestCase (depth + 1) found))
        (within levels (Node.nestingCases Value.brackets found)) :=
    settles_cases (hSettled.mono (by simp)) hShaped
  rw [Node.nesting, within_succ]
  cases found with
  | nil =>
      rw [bare]
      exact ⟨rfl, fits_zero, within_zero⟩
  | cons first rest =>
      rcases first with ⟨guard, result⟩
      have hDeep :
          depth ≤
            deepestCase (depth + 1) (.mk guard result :: rest) := by
        rw [deepestCase]
        omega
      rw [bare]
      exact hLines.braces hDeep

theorem isSettled_unary
    {op : UnaryOp}
    {operand : Node α}
    {mark : α}
    (hSettled :
      Node.AllBelow α (sizeOf (Node.unary op operand mark))
        (IsSettled options named)) :
    IsSettled options named (.unary op operand mark) := by
  refine isSettled_of_succ fun depth levels hShaped => ?_
  have hSize :
      sizeOf operand < sizeOf (Node.unary op operand mark) := by
    rw [Node.unary.sizeOf_spec]
    omega
  have hOperand := hSettled operand hSize depth levels hShaped
  rw [Node.nesting, within_succ]
  cases op with
  | negate =>
      rw [bare]
      exact hOperand.map _
  | not =>
      by_cases hEquals :
          ∃ left right inner,
            operand = .binary .equals left right inner
      · rcases hEquals with ⟨left, right, inner, rfl⟩
        simp only [Node.isShaped, Bool.and_eq_true] at hShaped
        have hLeft :=
          hSettled left (by simp; omega) depth (levels - 1) hShaped.1
        have hRight :=
          hSettled right (by simp; omega) depth (levels - 1) hShaped.2
        rw [within_pred (Node.nesting_pos _ _)] at hLeft hRight
        rw [bare, deepest, deepest, fits_max, Node.nesting,
          ← Nat.add_max_add_right, within_max]
        exact hLeft.bind fun text => hRight.map _
      · rw [bare]
        · exact hOperand.map _
        · exact fun left right inner hSame =>
            hEquals ⟨left, right, inner, hSame⟩

theorem isSettled_variadic
    {op : VariadicOp}
    {operands : List (Node α)}
    {mark : α}
    (hSettled :
      Node.AllBelow α (sizeOf (Node.variadic op operands mark))
        (IsSettled options named)) :
    IsSettled options named (.variadic op operands mark) := by
  refine isSettled_of_succ fun depth levels hShaped => ?_
  rw [Node.isShaped, Bool.and_eq_true] at hShaped
  rcases hShaped with ⟨hTwo, hOperands⟩
  rw [Node.isShaped, hTwo, Bool.true_and]
  cases operands with
  | nil => simp at hTwo
  | cons first rest =>
      have hParts :
          Node.AllBelow α (sizeOf (first :: rest))
            (IsSettled options named) :=
        hSettled.mono (by simp)
      rw [Node.areShaped_cons, Bool.and_eq_true] at hOperands
      have hFirst := hParts.head depth levels hOperands.1
      have hRest :
          Settles (furtherOperands options depth levels op rest)
            _ _ _ :=
        settles_furtherOperands hParts.tail hOperands.2
      rw [bare, deepest, deepestOf, fits_max, Node.areShaped_cons,
        Node.nesting, within_succ, Node.nestingOf, within_max]
      exact hFirst.bind fun text => hRest.map _

/- What is written of a shaped tree is settled. -/
theorem isSettled (node : Node α) :
    IsSettled options named node := by
  have hSettled :
      Node.AllBelow α (sizeOf node) (IsSettled options named) :=
    fun smaller _ => isSettled smaller
  cases node with
  | sequence body mark => exact isSettled_sequence hSettled
  | assign name value mark =>
      intro depth levels hShaped
      cases hShaped
  | «return» value mark =>
      refine isSettled_of_succ fun depth levels hShaped => ?_
      have hValue := hSettled value (by simp) depth levels hShaped
      rw [Node.nesting, within_succ, bare]
      exact hValue.map _
  | «variable» name mark =>
      refine isSettled_of_succ fun depth levels hShaped => ?_
      rw [Node.nesting, within_succ, bare, deepest, fits_zero]
      exact ⟨hShaped, rfl, within_zero⟩
  | literal value embedded mark =>
      refine isSettled_of_succ fun depth levels hShaped => ?_
      cases embedded with
      | true =>
          simp only [Node.isShaped, Bool.and_eq_true] at hShaped
          have hValue :=
            settles_embedded options.strict value levels hShaped.1
          rw [bare, deepest, fits_zero, Node.isShaped, hShaped.1,
            Node.nesting, within_succ]
          exact hValue.map _
      | false =>
          have hScalar := hShaped
          simp only [Node.isShaped, Bool.and_eq_true] at hScalar
          have hValue := settles_constant hScalar.1 hScalar.2
          rw [bare, deepest, fits_zero, Node.isShaped, hScalar.1,
            hScalar.2, Node.nesting, within_succ, within_zero]
          exact hValue
  | array items mark =>
      refine isSettled_of_succ fun depth levels hShaped => ?_
      rw [Node.nesting, within_succ, bare]
      exact (settles_nodes (hSettled.mono (by simp)) hShaped).map _
  | index base position mark =>
      refine isSettled_of_succ fun depth levels hShaped => ?_
      rw [Node.isShaped, Bool.and_eq_true] at hShaped
      have hSize :
          sizeOf base < sizeOf (Node.index base position mark) ∧
            sizeOf position <
              sizeOf (Node.index base position mark) := by
        rw [Node.index.sizeOf_spec]
        omega
      have hBase := hSettled base hSize.1 depth levels hShaped.1
      have hPosition := hSettled position hSize.2 depth levels hShaped.2
      rw [Node.nesting, within_succ, bare, deepest, fits_max,
        within_max]
      exact hBase.bind fun text => hPosition.map _
  | call name arguments mark =>
      refine isSettled_of_succ fun depth levels hShaped => ?_
      rw [Node.isShaped, Bool.and_eq_true] at hShaped
      have hArguments :
          Settles (nodes options depth levels arguments) _ _ _ :=
        settles_nodes (hSettled.mono (by simp)) hShaped.2
      rw [Node.nesting, within_succ, bare, Node.isShaped, hShaped.1,
        Bool.true_and]
      exact hArguments.map _
  | callNamed name arguments mark =>
      refine isSettled_of_succ fun depth levels hShaped => ?_
      rw [Node.isShaped, Bool.and_eq_true] at hShaped
      have hArguments :
          Settles (namedNodes options depth levels arguments) _ _ _ :=
        settles_namedNodes (hSettled.mono (by simp)) hShaped.2
      rw [Node.nesting, within_succ, bare, Node.isShaped, hShaped.1,
        Bool.true_and]
      exact hArguments.map _
  | unary op operand mark => exact isSettled_unary hSettled
  | binary op left right mark =>
      refine isSettled_of_succ fun depth levels hShaped => ?_
      rw [Node.isShaped, Bool.and_eq_true] at hShaped
      have hSize :
          sizeOf left < sizeOf (Node.binary op left right mark) ∧
            sizeOf right <
              sizeOf (Node.binary op left right mark) := by
        rw [Node.binary.sizeOf_spec]
        omega
      have hLeft := hSettled left hSize.1 depth levels hShaped.1
      have hRight := hSettled right hSize.2 depth levels hShaped.2
      rw [Node.nesting, within_succ, bare, deepest, fits_max,
        within_max]
      exact hLeft.bind fun text => hRight.map _
  | variadic op operands mark => exact isSettled_variadic hSettled
  | switch cases mark => exact isSettled_switch hSettled
  | cond steps mark =>
      refine isSettled_of_succ fun depth levels hShaped => ?_
      rw [Node.nesting, within_succ, bare]
      exact
        (settles_branches (hSettled.mono (by simp)) hShaped).map _
  | fragment part =>
      intro depth levels hShaped
      cases hShaped
termination_by sizeOf node

/- How deep the deepest line of a whole script is. -/
def scriptDepth : Node α → Nat
  | .sequence body _ => deepestLine 0 body
  | _ => 0

/- How deep a whole script nests as it is written. -/
def scriptNesting : Node α → Nat
  | .sequence body _ => Node.nestingOf Value.brackets body
  | _ => 0

/- What is written of a shaped script is settled. -/
theorem settles_script
    {tree : Node α}
    (hScript : tree.isScript named = true) :
    Settles (script options tree) (tree.isScript true)
      (options.fits (scriptDepth tree))
      (within Room.formatLevels (scriptNesting tree)) := by
  cases tree with
  | sequence body mark =>
      have hLines :
          Settles (statements options 0 Room.formatLevels body)
            _ _ _ :=
        settles_statements (fun node _ => isSettled node) hScript
      have hText :
          Settles (script options (.sequence body mark))
            (Node.areStatements true body && true)
            (options.fits (deepestLine 0 body) && true)
            (within Room.formatLevels
              (Node.nestingOf Value.brackets body) && true) := by
        apply hLines.bind
        intro lines
        cases lines <;> exact ⟨rfl, rfl, rfl⟩
      rwa [Bool.and_true, Bool.and_true, Bool.and_true] at hText
  | _ => cases hScript

end Format

end ExperimentScript
