import ExperimentScript.Proofs.Script.Fields

/-
  The nodes just below a node, and what holds of all nodes of
  a tree.

  Key definitions include:
    * `ExperimentScript.Node.parts`
    * `ExperimentScript.Node.all`

  Main declarations:
    * `ExperimentScript.Node.partsInduction`
    * `ExperimentScript.Node.all_eq`
    * `ExperimentScript.Node.isStatement_of_mem_parts`
-/

namespace ExperimentScript

------------------------------------------------------------
-- Parts
------------------------------------------------------------

namespace Case

/- The nodes of a case. -/
def parts {α : Type} : Case α → List (Node α)
  | .mk guard result => [guard, result]

@[simp] theorem parts_mk
    {α : Type}
    (guard result : Node α) :
    parts (.mk guard result) = [guard, result] := rfl

end Case

namespace Branch

/- The nodes of a step of an if-chain. -/
def parts {α : Type} : Branch α → List (Node α)
  | .test guard consequence => [guard, consequence]
  | .otherwise consequence => [consequence]

@[simp] theorem parts_test
    {α : Type}
    (guard consequence : Node α) :
    parts (.test guard consequence) = [guard, consequence] := rfl

@[simp] theorem parts_otherwise
    {α : Type}
    (consequence : Node α) :
    parts (.otherwise consequence) = [consequence] := rfl

end Branch

namespace Node

variable {α : Type}

/- The nodes that stand just below a node. -/
def parts : Node α → List (Node α)
  | .sequence nodes _ | .array nodes _ => nodes
  | .call _ nodes _ | .variadic _ nodes _ => nodes
  | .callNamed _ arguments _ => arguments.map Prod.snd
  | .assign _ value _ | .return value _ | .unary _ value _ => [value]
  | .index left right _ | .binary _ left right _ => [left, right]
  | .switch cases _ => cases.flatMap Case.parts
  | .cond branches _ => branches.flatMap Branch.parts
  | .variable _ _ | .literal _ _ _ | .fragment _ => []

/- The nodes of an item of a list are smaller than the list. -/
theorem sizeOf_lt_of_mem
    {β : Type}
    [SizeOf β]
    {items : List β}
    {item : β}
    {node : Node α}
    (hItem : item ∈ items)
    (hNode : sizeOf node ≤ sizeOf item) :
    sizeOf node < sizeOf items :=
  Nat.lt_of_le_of_lt hNode (List.sizeOf_lt_of_mem hItem)

/- A part of a node is smaller than the node. -/
theorem sizeOf_lt_of_mem_parts
    {node part : Node α}
    (hPart : part ∈ node.parts) :
    sizeOf part < sizeOf node := by
  have hNamed :
      ∀ argument : Text × Node α,
        sizeOf argument.2 ≤ sizeOf argument := by
    rintro ⟨name, value⟩
    simp
  have hCases :
      ∀ (entry : Case α), ∀ part ∈ entry.parts,
        sizeOf part ≤ sizeOf entry := by
    rintro ⟨guard, result⟩ part hMem
    simp only [Case.parts, List.mem_cons, List.not_mem_nil,
      or_false] at hMem
    rw [Case.mk.sizeOf_spec]
    rcases hMem with rfl | rfl <;> omega
  have hBranches :
      ∀ (step : Branch α), ∀ part ∈ step.parts,
        sizeOf part ≤ sizeOf step := by
    rintro (⟨guard, consequence⟩ | ⟨consequence⟩) part hMem
    · simp only [Branch.parts, List.mem_cons, List.not_mem_nil,
        or_false] at hMem
      rw [Branch.test.sizeOf_spec]
      rcases hMem with rfl | rfl <;> omega
    · cases List.mem_singleton.mp hMem
      simp
  cases node with
  | sequence | array | call | variadic =>
      simp only [parts] at hPart
      have hSize := List.sizeOf_lt_of_mem hPart
      simp
      omega
  | callNamed name arguments mark =>
      rcases List.mem_map.mp hPart with ⟨argument, hMem, rfl⟩
      have hSize := sizeOf_lt_of_mem hMem (hNamed argument)
      simp
      omega
  | assign | «return» | unary =>
      cases List.mem_singleton.mp hPart
      simp only [assign.sizeOf_spec, return.sizeOf_spec,
        unary.sizeOf_spec]
      omega
  | index | binary =>
      simp only [parts, List.mem_cons, List.not_mem_nil,
        or_false] at hPart
      simp only [index.sizeOf_spec, binary.sizeOf_spec]
      rcases hPart with rfl | rfl <;> omega
  | «switch» cases mark =>
      rcases List.mem_flatMap.mp hPart with ⟨entry, hMem, hIn⟩
      have hSize := sizeOf_lt_of_mem hMem (hCases entry part hIn)
      simp
      omega
  | cond steps mark =>
      rcases List.mem_flatMap.mp hPart with ⟨step, hMem, hIn⟩
      have hSize := sizeOf_lt_of_mem hMem (hBranches step part hIn)
      simp
      omega
  | «variable» | literal | fragment => cases hPart

/- What holds of a node if it holds of its parts holds of all trees. -/
theorem partsInduction
    {holds : Node α → Prop}
    (hStep :
      ∀ node, (∀ part ∈ node.parts, holds part) → holds node)
    (node : Node α) :
    holds node :=
  hStep node fun part hPart =>
    have _ := sizeOf_lt_of_mem_parts hPart
    partsInduction hStep part
termination_by sizeOf node

------------------------------------------------------------
-- All Nodes Of A Tree
------------------------------------------------------------

mutual

/- Whether something holds of all nodes of a tree. -/
def all (good : Node α → Bool) : Node α → Bool
  | node@(.sequence nodes _) | node@(.array nodes _) =>
    good node && allNodes good nodes
  | node@(.call _ nodes _) | node@(.variadic _ nodes _) =>
    good node && allNodes good nodes
  | node@(.callNamed _ arguments _) =>
    good node && allNamed good arguments
  | node@(.assign _ value _) | node@(.return value _) =>
    good node && all good value
  | node@(.unary _ value _) => good node && all good value
  | node@(.index left right _) | node@(.binary _ left right _) =>
    good node && (all good left && all good right)
  | node@(.switch cases _) => good node && allCases good cases
  | node@(.cond branches _) => good node && allBranches good branches
  | node => good node

/- Whether it holds of all nodes of some trees. -/
def allNodes (good : Node α → Bool) : List (Node α) → Bool
  | [] => true
  | node :: rest => all good node && allNodes good rest

/- Whether it holds of all nodes of some named arguments. -/
def allNamed (good : Node α → Bool) : List (Text × Node α) → Bool
  | [] => true
  | (_, node) :: rest => all good node && allNamed good rest

/- Whether it holds of all nodes of some cases. -/
def allCases (good : Node α → Bool) : List (Case α) → Bool
  | [] => true
  | .mk guard result :: rest =>
    (all good guard && all good result) && allCases good rest

/- Whether it holds of all nodes of an if-chain. -/
def allBranches (good : Node α → Bool) : List (Branch α) → Bool
  | [] => true
  | .test guard consequence :: rest =>
    (all good guard && all good consequence) && allBranches good rest
  | .otherwise consequence :: rest =>
    all good consequence && allBranches good rest

end

section All

variable {good : Node α → Bool}

theorem allNodes_eq (nodes : List (Node α)) :
    allNodes good nodes = nodes.all (all good) := by
  induction nodes with
  | nil => rfl
  | cons node rest ih => rw [allNodes, ih, List.all_cons]

theorem allNamed_eq (arguments : List (Text × Node α)) :
    allNamed good arguments =
      (arguments.map Prod.snd).all (all good) := by
  induction arguments with
  | nil => rfl
  | cons argument rest ih =>
      rw [allNamed, ih, List.map_cons, List.all_cons]

theorem allCases_eq (cases : List (Case α)) :
    allCases good cases =
      (cases.flatMap Case.parts).all (all good) := by
  induction cases with
  | nil => rfl
  | cons entry rest ih =>
      rcases entry with ⟨guard, result⟩
      simp [allCases, ih, Bool.and_assoc]

theorem allBranches_eq (branches : List (Branch α)) :
    allBranches good branches =
      (branches.flatMap Branch.parts).all (all good) := by
  induction branches with
  | nil => rfl
  | cons step rest ih =>
      rcases step with ⟨guard, consequence⟩ | ⟨consequence⟩
      · simp [allBranches, ih, Bool.and_assoc]
      · simp [allBranches, ih]

/- It holds of a node and of all nodes of its parts. -/
theorem all_eq (node : Node α) :
    node.all good = (good node && node.parts.all (all good)) := by
  cases node <;>
    simp [all, parts, allNodes_eq, allNamed_eq, allCases_eq,
      allBranches_eq]

theorem all_iff (node : Node α) :
    node.all good = true ↔
      good node = true ∧ ∀ part ∈ node.parts, part.all good = true := by
  rw [all_eq, Bool.and_eq_true, List.all_eq_true]

end All

------------------------------------------------------------
-- Shapes Of Parts
------------------------------------------------------------

/- A whole script has the shape of a block. -/
theorem isStatement_of_isScript
    {named : Bool}
    {tree : Node α}
    (hScript : tree.isScript named = true) :
    isStatement named tree = true := by
  cases tree <;> first
    | exact hScript
    | cases hScript

theorem areStatements_iff
    (named : Bool)
    (nodes : List (Node α)) :
    areStatements named nodes = true ↔
      ∀ node ∈ nodes, isStatement named node = true := by
  induction nodes with
  | nil => simp
  | cons node rest ih => simp [ih]

theorem areShaped_iff
    (named : Bool)
    (nodes : List (Node α)) :
    areShaped named nodes = true ↔
      ∀ node ∈ nodes, isShaped named node = true := by
  induction nodes with
  | nil => simp
  | cons node rest ih => simp [ih]

theorem areCases_iff
    (named : Bool)
    (cases : List (Case α)) :
    areCases named cases = true ↔
      ∀ part ∈ cases.flatMap Case.parts,
        isShaped named part = true := by
  induction cases with
  | nil => simp [areCases]
  | cons entry rest ih =>
      rcases entry with ⟨guard, result⟩
      rw [areCases, Bool.and_eq_true, Bool.and_eq_true, ih,
        List.flatMap_cons, List.forall_mem_append]
      simp

theorem isShaped_of_areSteps
    {named first : Bool}
    {steps : List (Branch α)}
    (hSteps : areSteps named first steps = true) :
    ∀ part ∈ steps.flatMap Branch.parts,
      isShaped named part = true := by
  induction steps generalizing first with
  | nil => simp
  | cons step rest ih =>
      rcases step with ⟨guard, consequence⟩ | ⟨consequence⟩
      · simp only [areSteps, Bool.and_eq_true] at hSteps
        rw [List.flatMap_cons, List.forall_mem_append]
        refine ⟨?_, ih hSteps.2⟩
        simpa using hSteps.1
      · simp only [areSteps, Bool.and_eq_true,
          List.isEmpty_iff] at hSteps
        rw [hSteps.1.2]
        simpa using hSteps.2

/- The parts of a statement can stand as statements. -/
theorem isStatement_of_mem_parts
    {named : Bool}
    {node part : Node α}
    (hNode : isStatement named node = true)
    (hPart : part ∈ node.parts) :
    isStatement named part = true := by
  cases node with
  | sequence body mark =>
      rw [isStatement_eq_isShaped (by simp), isShaped,
        areStatements_iff] at hNode
      exact hNode part hPart
  | assign name value mark =>
      rw [isStatement, Bool.and_eq_true] at hNode
      cases List.mem_singleton.mp hPart
      exact isStatement_of_isShaped hNode.2
  | «return» | unary =>
      cases List.mem_singleton.mp hPart
      exact isStatement_of_isShaped hNode
  | «variable» | literal | fragment => cases hPart
  | array items mark =>
      rw [isStatement_eq_isShaped (by simp), isShaped,
        areShaped_iff] at hNode
      exact isStatement_of_isShaped (hNode part hPart)
  | call name arguments mark =>
      simp only [isStatement, isShaped, Bool.and_eq_true,
        areShaped_iff] at hNode
      exact isStatement_of_isShaped (hNode.2 part hPart)
  | variadic op operands mark =>
      simp only [isStatement, isShaped, Bool.and_eq_true,
        areShaped_iff] at hNode
      exact isStatement_of_isShaped (hNode.2 part hPart)
  | callNamed name arguments mark =>
      simp only [isStatement, isShaped, Bool.and_eq_true,
        haveShaped_iff] at hNode
      rcases List.mem_map.mp hPart with ⟨argument, hMem, rfl⟩
      exact isStatement_of_isShaped (hNode.2 argument hMem).2
  | index base position mark =>
      simp only [isStatement, isShaped, Bool.and_eq_true] at hNode
      simp only [parts, List.mem_cons, List.not_mem_nil,
        or_false] at hPart
      rcases hPart with rfl | rfl
      · exact isStatement_of_isShaped hNode.1
      · exact isStatement_of_isShaped hNode.2
  | binary op left right mark =>
      simp only [isStatement, isShaped, Bool.and_eq_true] at hNode
      simp only [parts, List.mem_cons, List.not_mem_nil,
        or_false] at hPart
      rcases hPart with rfl | rfl
      · exact isStatement_of_isShaped hNode.1
      · exact isStatement_of_isShaped hNode.2
  | «switch» cases mark =>
      rw [isStatement_eq_isShaped (by simp), isShaped,
        areCases_iff] at hNode
      exact isStatement_of_isShaped (hNode part hPart)
  | cond steps mark =>
      rw [isStatement_eq_isShaped (by simp), isShaped] at hNode
      exact isStatement_of_isShaped
        (isShaped_of_areSteps hNode part hPart)

end Node

end ExperimentScript
