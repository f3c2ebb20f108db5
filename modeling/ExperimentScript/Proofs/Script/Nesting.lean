import ExperimentScript.Proofs.Script.Shape

/-
  How deep trees nest.

  A node nests one level deeper than the deepest of the nodes
  below it. What follows a tree down to its leaves comes to an
  end within so many levels, and only within so many.

  Key definitions include:
    * `ExperimentScript.Value.brackets`
    * `ExperimentScript.Node.nesting`
    * `ExperimentScript.within`

  Main declarations:
    * `ExperimentScript.Node.nesting_pos`
    * `ExperimentScript.within_succ`
    * `ExperimentScript.within_max`
-/

namespace ExperimentScript

------------------------------------------------------------
-- Constants
------------------------------------------------------------

namespace Value

mutual

/- How many lists and maps stand around each other in a constant. -/
def brackets : Value → Nat
  | .list items => bracketsItems items + 1
  | .map fields => bracketsFields fields + 1
  | _ => 0

/- The most of them around each other in one of some constants. -/
def bracketsItems : List Value → Nat
  | [] => 0
  | item :: items => max (brackets item) (bracketsItems items)

/- The most of them around each other in the values of some fields. -/
def bracketsFields : List (Text × Value) → Nat
  | [] => 0
  | (_, value) :: fields =>
    max (brackets value) (bracketsFields fields)

end

end Value

------------------------------------------------------------
-- Trees
------------------------------------------------------------

namespace Node

variable {α : Type}

mutual

/-
  How deep nodes nest in a node, which counts itself. An
  embedded constant counts for as much more as it is weighed.
-/
def nesting (weight : Value → Nat) : Node α → Nat
  | .sequence body _ => nestingOf weight body + 1
  | .assign _ value _ | .return value _ => nesting weight value + 1
  | .unary _ operand _ => nesting weight operand + 1
  | .array items _ | .call _ items _ => nestingOf weight items + 1
  | .variadic _ items _ => nestingOf weight items + 1
  | .callNamed _ arguments _ => nestingNamed weight arguments + 1
  | .index left right _ | .binary _ left right _ =>
    max (nesting weight left) (nesting weight right) + 1
  | .switch cases _ => nestingCases weight cases + 1
  | .cond steps _ => nestingSteps weight steps + 1
  | .literal value true _ => weight value + 1
  | .literal _ false _ | .variable _ _ | .fragment _ => 1

/- The deepest nesting in some nodes. -/
def nestingOf (weight : Value → Nat) : List (Node α) → Nat
  | [] => 0
  | node :: rest => max (nesting weight node) (nestingOf weight rest)

/- The deepest nesting in some named arguments. -/
def nestingNamed (weight : Value → Nat) : List (Text × Node α) → Nat
  | [] => 0
  | (_, node) :: rest =>
    max (nesting weight node) (nestingNamed weight rest)

/- The deepest nesting in some cases. -/
def nestingCases (weight : Value → Nat) : List (Case α) → Nat
  | [] => 0
  | .mk guard result :: rest =>
    max (max (nesting weight guard) (nesting weight result))
      (nestingCases weight rest)

/- The deepest nesting in the steps of an if-chain. -/
def nestingSteps (weight : Value → Nat) : List (Branch α) → Nat
  | [] => 0
  | .test guard node :: rest =>
    max (max (nesting weight guard) (nesting weight node))
      (nestingSteps weight rest)
  | .otherwise node :: rest =>
    max (nesting weight node) (nestingSteps weight rest)

end

theorem nesting_pos (weight : Value → Nat) (node : Node α) :
    0 < node.nesting weight := by
  cases node with
  | literal value embedded mark => cases embedded <;> simp [nesting]
  | _ => simp [nesting]

end Node

------------------------------------------------------------
-- Levels
------------------------------------------------------------

/- Whether so deep a nesting is within a number of levels. -/
def within (levels nesting : Nat) : Bool :=
  decide (nesting ≤ levels)

variable {levels nesting : Nat}

theorem within_iff :
    within levels nesting = true ↔ nesting ≤ levels :=
  decide_eq_true_iff

@[simp] theorem within_zero : within levels 0 = true :=
  within_iff.mpr (Nat.zero_le levels)

/- What counts one level more takes one level more. -/
@[simp] theorem within_succ :
    within (levels + 1) (nesting + 1) = within levels nesting := by
  simp only [within, Nat.add_le_add_iff_right]

/- Nothing that counts is within no levels. -/
theorem within_none (hNesting : 0 < nesting) :
    within 0 nesting = false := by
  simp only [within, decide_eq_false_iff_not]
  omega

/- What counts is within a level less just if one more is within all. -/
theorem within_pred (hNesting : 0 < nesting) :
    within (levels - 1) nesting = within levels (nesting + 1) := by
  simp only [within, decide_eq_decide]
  omega

theorem within_max (first second : Nat) :
    within levels (max first second) =
      (within levels first && within levels second) := by
  simp only [within, Nat.max_le, Bool.decide_and]

end ExperimentScript
