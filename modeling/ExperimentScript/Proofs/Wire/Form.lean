import ExperimentScript.Proofs.Json.RoundTrip
import ExperimentScript.Proofs.Parser.Shape
import ExperimentScript.Proofs.Script.Nesting
import ExperimentScript.Proofs.Script.Parts
import ExperimentScript.Wire

/-
  The wire forms of trees that have the shape of scripts.

  Such a tree has a wire form just when there is room for as
  many levels as it nests. The form is within the bounds of
  JSON: its numbers can be read back, and no map has two fields
  of one name.

  Key definitions include:
    * `ExperimentScript.Wire.form`
    * `ExperimentScript.Wire.nesting`
    * `ExperimentScript.Wire.reached`
    * `ExperimentScript.Node.isUnpaired`

  Main declarations:
    * `ExperimentScript.Wire.encodeWithin_eq`
    * `ExperimentScript.Wire.encode_eq`
    * `ExperimentScript.Wire.isBounded_form`
    * `ExperimentScript.Wire.isUnpaired_form`
-/

namespace ExperimentScript

namespace Wire

variable {α : Type}

------------------------------------------------------------
-- Forms
------------------------------------------------------------

mutual

/- The wire form of a node without fragments. -/
def form (caseKey : Text) : Node α → Value
  | .literal value true _ => tagged "literal" [("value", value)]
  | .literal value false _ => value
  | .sequence statements _ =>
    tagged "seq" [("seq", .list (forms caseKey statements))]
  | .assign name value _ =>
    tagged "set" [("var", .text name), ("value", form caseKey value)]
  | .variable name _ => tagged "get" [("var", .text name)]
  | .array items _ =>
    tagged "array" [("values", .list (forms caseKey items))]
  | .index base position _ =>
    tagged "index"
      [("base", form caseKey base), ("index", form caseKey position)]
  | .call name arguments _ =>
    .map (callFields name (positionalFields (forms caseKey arguments)))
  | .callNamed name arguments _ =>
    .map (callFields name (namedForms caseKey arguments))
  | .unary op operand _ =>
    tagged (unaryName op) [("value", form caseKey operand)]
  | .return value _ => tagged "return" [("value", form caseKey value)]
  | .binary op left right _ =>
    tagged (binaryName op)
      [("left", form caseKey left), ("right", form caseKey right)]
  | .variadic op operands _ =>
    tagged (variadicName op)
      [("values", .list (forms caseKey operands))]
  | .switch cases _ =>
    tagged "switch" [("cases", .list (caseForms caseKey cases))]
  | .cond branches _ =>
    tagged "cond" [("cond", .list (branchForms caseKey branches))]
  | .fragment _ => .null

/- The wire forms of some nodes. -/
def forms (caseKey : Text) : List (Node α) → List Value
  | [] => []
  | node :: rest => form caseKey node :: forms caseKey rest

/- The wire forms of some named arguments. -/
def namedForms
    (caseKey : Text) :
    List (Text × Node α) → Fields Value
  | [] => []
  | (name, node) :: rest =>
    (name, form caseKey node) :: namedForms caseKey rest

/- The wire forms of the cases of a switch. -/
def caseForms (caseKey : Text) : List (Case α) → List Value
  | [] => []
  | .mk guard result :: rest =>
    .map (caseFields caseKey (form caseKey guard)
      (form caseKey result)) :: caseForms caseKey rest

/- The wire forms of the steps of an if-chain. -/
def branchForms (caseKey : Text) : List (Branch α) → List Value
  | [] => []
  | .test guard consequence :: rest =>
    .map [("if", form caseKey guard),
      ("then", form caseKey consequence)] ::
        branchForms caseKey rest
  | .otherwise consequence :: rest =>
    .map [("if", .bool true), ("then", form caseKey consequence)] ::
      branchForms caseKey rest

end

------------------------------------------------------------
-- Levels
------------------------------------------------------------

/- A constant counts for no more than the node it stands in. -/
def unweighed (_ : Value) : Nat := 0

/- How deep a node nests as its wire form is made. -/
def nesting (node : Node α) : Nat :=
  node.nesting unweighed

section Reached

variable {β γ : Type}
variable {levels deep deeper : Nat}

/- A result that is reached only within some levels. -/
def reached
    (levels deep : Nat)
    (result : β) :
    Except Failure β :=
  if deep ≤ levels then .ok result else .error .nestedTooDeeply

theorem reached_zero (result : β) :
    reached levels 0 result = .ok result :=
  if_pos (Nat.zero_le levels)

/- What counts one level more is reached from one level more. -/
theorem reached_succ (result : β) :
    reached (levels + 1) (deep + 1) result =
      reached levels deep result := by
  simp only [reached, Nat.add_le_add_iff_right]

/- Two results are reached one after the other if the deeper one is. -/
theorem reached_bind
    (first : β)
    (next : β → γ) :
    (reached levels deep first >>= fun result =>
        reached levels deeper (next result)) =
      reached levels (max deep deeper) (next first) := by
  unfold reached
  by_cases hDeep : deep ≤ levels
  · simp only [Nat.max_le, hDeep, true_and]
    rfl
  · have hMax : ¬max deep deeper ≤ levels :=
      fun hLe => hDeep (Nat.le_trans (Nat.le_max_left ..) hLe)
    rw [if_neg hDeep, if_neg hMax]
    rfl

/- What is made of a result is reached with it. -/
theorem reached_map
    (first : β)
    (make : β → γ) :
    (reached levels deep first >>= fun result =>
        pure (make result)) =
      reached levels deep (make first) := by
  unfold reached
  split <;> rfl

end Reached

------------------------------------------------------------
-- Encoding
------------------------------------------------------------

section Encoding

variable {caseKey : Text}

/- A node has its wire form within just as many levels as it nests. -/
def IsReached
    (caseKey : Text)
    (node : Node α) : Prop :=
  ∀ levels,
    encodeWithin caseKey levels node =
      reached levels (node.nesting unweighed) (form caseKey node)

theorem encodeNodes_eq
    {nodes : List (Node α)}
    (hNodes : ∀ node ∈ nodes, IsReached caseKey node)
    (levels : Nat) :
    encodeNodes caseKey levels nodes =
      reached levels (Node.nestingOf unweighed nodes)
        (forms caseKey nodes) := by
  induction nodes with
  | nil => exact (reached_zero _).symm
  | cons node rest ih =>
      rw [List.forall_mem_cons] at hNodes
      rw [encodeNodes, hNodes.1, ih hNodes.2]
      simp only [reached_map]
      exact reached_bind _ (· :: forms caseKey rest)

theorem encodeNamed_eq
    {arguments : List (Text × Node α)}
    (hParts :
      ∀ node ∈ arguments.map Prod.snd, IsReached caseKey node)
    (levels : Nat) :
    encodeNamed caseKey levels arguments =
      reached levels (Node.nestingNamed unweighed arguments)
        (namedForms caseKey arguments) := by
  induction arguments with
  | nil => exact (reached_zero _).symm
  | cons argument rest ih =>
      rcases argument with ⟨name, node⟩
      rw [List.map_cons, List.forall_mem_cons] at hParts
      rw [encodeNamed, hParts.1, ih hParts.2]
      simp only [reached_map]
      exact
        reached_bind _ fun value =>
          (name, value) :: namedForms caseKey rest

theorem encodeCases_eq
    {cases : List (Case α)}
    (hParts :
      ∀ node ∈ cases.flatMap Case.parts, IsReached caseKey node)
    (levels : Nat) :
    encodeCases caseKey levels cases =
      reached levels (Node.nestingCases unweighed cases)
        (caseForms caseKey cases) := by
  induction cases with
  | nil => exact (reached_zero _).symm
  | cons entry rest ih =>
      rcases entry with ⟨guard, result⟩
      rw [List.flatMap_cons, List.forall_mem_append] at hParts
      have hGuard := hParts.1 guard (by simp)
      have hResult := hParts.1 result (by simp)
      rw [encodeCases, hGuard, hResult, ih hParts.2]
      simp only [reached_map, reached_bind]
      rw [Node.nestingCases, caseForms, Nat.max_assoc]

theorem encodeBranches_eq
    {branches : List (Branch α)}
    (hParts :
      ∀ node ∈ branches.flatMap Branch.parts, IsReached caseKey node)
    (levels : Nat) :
    encodeBranches caseKey levels branches =
      reached levels (Node.nestingSteps unweighed branches)
        (branchForms caseKey branches) := by
  induction branches with
  | nil => exact (reached_zero _).symm
  | cons step rest ih =>
      rw [List.flatMap_cons, List.forall_mem_append] at hParts
      have hRest := ih hParts.2
      rcases step with ⟨guard, consequence⟩ | ⟨consequence⟩
      · have hGuard := hParts.1 guard (by simp)
        have hConsequence := hParts.1 consequence (by simp)
        rw [encodeBranches, hGuard, hConsequence, hRest]
        simp only [reached_map, reached_bind]
        rw [Node.nestingSteps, branchForms, Nat.max_assoc]
      · have hConsequence := hParts.1 consequence (by simp)
        rw [encodeBranches, hConsequence, hRest]
        simp only [reached_map, reached_bind]
        rw [Node.nestingSteps, branchForms]

/- A node is reached one level above its parts. -/
theorem isReached_of_parts
    {named : Bool}
    {node : Node α}
    (hNode : node.isStatement named = true)
    (hParts : ∀ part ∈ node.parts, IsReached caseKey part) :
    IsReached caseKey node := by
  intro levels
  cases levels with
  | zero =>
      rw [encodeWithin, reached,
        if_neg (Nat.not_le.mpr (node.nesting_pos _))]
  | succ levels => ?_
  cases node with
  | literal value embedded mark =>
      cases embedded with
      | true =>
          rw [encodeWithin, Node.nesting, reached_succ]
          exact (reached_zero _).symm
      | false =>
          rw [encodeWithin, Node.nesting, reached_succ]
          exact (reached_zero _).symm
  | «variable» name mark =>
      rw [encodeWithin, Node.nesting, reached_succ]
      exact (reached_zero _).symm
  | sequence | array | variadic | call =>
      rw [Node.parts] at hParts
      rw [encodeWithin, encodeNodes_eq hParts, reached_map,
        Node.nesting, reached_succ]
      rfl
  | callNamed name arguments mark =>
      rw [encodeWithin, encodeNamed_eq hParts, reached_map,
        Node.nesting, reached_succ]
      rfl
  | assign name value mark =>
      rw [encodeWithin, hParts value (by simp [Node.parts]),
        reached_map, Node.nesting, reached_succ]
      rfl
  | «return» value mark =>
      rw [encodeWithin, hParts value (by simp [Node.parts]),
        reached_map, Node.nesting, reached_succ]
      rfl
  | unary op operand mark =>
      rw [encodeWithin, hParts operand (by simp [Node.parts]),
        reached_map, Node.nesting, reached_succ]
      rfl
  | index base position mark =>
      rw [encodeWithin, hParts base (by simp [Node.parts]),
        hParts position (by simp [Node.parts])]
      simp only [reached_map, reached_bind]
      rw [Node.nesting, reached_succ]
      rfl
  | binary op left right mark =>
      rw [encodeWithin, hParts left (by simp [Node.parts]),
        hParts right (by simp [Node.parts])]
      simp only [reached_map, reached_bind]
      rw [Node.nesting, reached_succ]
      rfl
  | «switch» cases mark =>
      rw [encodeWithin, encodeCases_eq hParts, reached_map,
        Node.nesting, reached_succ]
      rfl
  | cond branches mark =>
      rw [encodeWithin, encodeBranches_eq hParts, reached_map,
        Node.nesting, reached_succ]
      rfl
  | fragment part => cases hNode

/- A script that is read has the shape of a block. -/
theorem isStatement_of_parse
    {strict : Bool}
    {source : Text}
    {tree : Node Span}
    (hParse : parse strict source = .ok tree) :
    tree.isStatement (!strict) = true := by
  rcases exists_of_parse hParse with ⟨tokens, hTokens, hRead⟩
  exact Node.isStatement_of_isScript
    (isScript_of_parseTokens hTokens hRead)

/- Within which levels a tree of the shape of a script has a wire form. -/
theorem encodeWithin_eq
    {named : Bool}
    {node : Node α}
    (caseKey : Text)
    (hNode : node.isStatement named = true) :
    IsReached caseKey node := by
  induction node using Node.partsInduction with
  | hStep node ih =>
      exact isReached_of_parts hNode fun part hPart =>
        ih part hPart (Node.isStatement_of_mem_parts hNode hPart)

/-
  A tree has its wire form if there is room for its levels, and
  none if there is not.
-/
theorem encode_eq
    [Room]
    {named : Bool}
    {node : Node α}
    (caseKey : Text)
    (hNode : node.isStatement named = true) :
    encode caseKey node =
      reached Room.wireLevels (nesting node) (form caseKey node) :=
  encodeWithin_eq caseKey hNode _

end Encoding

------------------------------------------------------------
-- Lists Of Forms
------------------------------------------------------------

theorem forms_eq_map
    (caseKey : Text)
    (nodes : List (Node α)) :
    forms caseKey nodes = nodes.map (form caseKey) := by
  induction nodes with
  | nil => rfl
  | cons node rest ih => rw [forms, ih, List.map_cons]

/- An argument with its wire form. -/
def formArgument
    (caseKey : Text)
    (argument : Text × Node α) :
    Text × Value :=
  (argument.1, form caseKey argument.2)

theorem namedForms_eq_map
    (caseKey : Text)
    (arguments : List (Text × Node α)) :
    namedForms caseKey arguments =
      arguments.map (formArgument caseKey) := by
  induction arguments with
  | nil => rfl
  | cons argument rest ih =>
      rw [namedForms, ih, List.map_cons, formArgument]

theorem names_namedForms
    (caseKey : Text)
    (arguments : List (Text × Node α)) :
    Fields.names (namedForms caseKey arguments) =
      Fields.names arguments := by
  rw [namedForms_eq_map, Fields.names, Fields.names, List.map_map]
  rfl

/- Positional arguments are one field, with a list unless it is one alone. -/
theorem positionalFields_cases (values : List Value) :
    (∃ value, values = [value] ∧
      positionalFields values = [(↑"value", value)]) ∨
      values.length ≠ 1 ∧
        positionalFields values = [(↑"values", .list values)] := by
  cases values with
  | nil => exact .inr ⟨by simp, rfl⟩
  | cons first rest =>
      cases rest with
      | nil => exact .inl ⟨first, rfl, rfl⟩
      | cons second rest => exact .inr ⟨by simp, rfl⟩

theorem forall_mem_forms
    {good : Value → Prop}
    {caseKey : Text}
    {nodes : List (Node α)}
    (hNodes : ∀ node ∈ nodes, good (form caseKey node)) :
    ∀ item ∈ forms caseKey nodes, good item := by
  rw [forms_eq_map]
  exact List.forall_mem_map.mpr hNodes

theorem forall_mem_namedForms
    {goodText : Text → Prop}
    {good : Value → Prop}
    {caseKey : Text}
    {arguments : List (Text × Node α)}
    (hNames : ∀ argument ∈ arguments, goodText argument.1)
    (hParts :
      ∀ part ∈ arguments.map Prod.snd, good (form caseKey part)) :
    ∀ entry ∈ namedForms caseKey arguments,
      goodText entry.1 ∧ good entry.2 := by
  rw [namedForms_eq_map]
  exact List.forall_mem_map.mpr fun argument hMem =>
    ⟨hNames argument hMem,
      hParts argument.2 (List.mem_map.mpr ⟨argument, hMem, rfl⟩)⟩

------------------------------------------------------------
-- Properties Of Forms
------------------------------------------------------------

/- The words that wire forms are named with, operators apart. -/
def words : List Text :=
  ["op", "literal", "seq", "set", "var", "get", "array", "values",
    "index", "base", "value", "return", "left", "right", "switch",
    "cases", "case", "result", "cond", "if", "then"]

/-
  A property of texts and one of constants that goes from the
  texts and items of a constant to the constant.
-/
structure Carried
    (goodText : Text → Prop)
    (good : Value → Prop) : Prop where
  word : ∀ word ∈ words, goodText word
  unary : ∀ op, goodText (unaryName op)
  binary : ∀ op, goodText (binaryName op)
  variadic : ∀ op, goodText (variadicName op)
  bool : ∀ truth, good (.bool truth)
  text : ∀ {text}, goodText text → good (.text text)
  list : ∀ {items}, (∀ item ∈ items, good item) → good (.list items)
  map : ∀ {fields : Fields Value},
    fields.areDistinct = true →
    (∀ entry ∈ fields, goodText entry.1 ∧ good entry.2) →
    good (.map fields)

/-
  The texts and the constant of a node itself are good. The
  names of its arguments are distinct.
-/
def OwnGood
    (goodText : Text → Prop)
    (good : Value → Prop) :
    Node α → Prop
  | .assign name _ _ | .variable name _ | .call name _ _ =>
    goodText name
  | .callNamed name arguments _ =>
    goodText name ∧ Fields.areDistinct arguments = true ∧
      ∀ argument ∈ arguments, goodText argument.1
  | .literal value _ _ => good value
  | .fragment _ => False
  | _ => True

namespace Carried

variable {goodText : Text → Prop}
variable {good : Value → Prop}
variable (hGood : Carried goodText good)
include hGood

theorem tagged
    {op : Text}
    {fields : Fields Value}
    (hOp : goodText op)
    (hDistinct :
      Fields.areDistinct (("op", .text op) :: fields) = true)
    (hFields : ∀ entry ∈ fields, entry.1 ∈ words ∧ good entry.2) :
    good (tagged op fields) := by
  refine hGood.map hDistinct (List.forall_mem_cons.mpr ⟨?_, ?_⟩)
  · exact ⟨hGood.word "op" (by decide), hGood.text hOp⟩
  · exact fun entry hMem =>
      ⟨hGood.word entry.1 (hFields entry hMem).1,
        (hFields entry hMem).2⟩

theorem callFields
    {name : Text}
    {fields : Fields Value}
    (hName : goodText name)
    (hDistinct : fields.areDistinct = true)
    (hFields :
      ∀ entry ∈ fields, goodText entry.1 ∧ good entry.2) :
    good (.map (callFields name fields)) := by
  refine hGood.map (Fields.areDistinct_set hDistinct _ _) ?_
  exact Fields.forall_mem_set
    (fun name value => goodText name ∧ good value) hFields
    ⟨hGood.word "op" (by decide), hGood.text hName⟩

theorem caseFields
    {caseKey : Text}
    {guard result : Value}
    (hKey : goodText caseKey)
    (hGuard : good guard)
    (hResult : good result) :
    good (.map (caseFields caseKey guard result)) := by
  refine hGood.map ?_ ?_
  · exact Fields.areDistinct_set (Fields.areDistinct_set
      (Fields.areDistinct_set rfl _ _) _ _) _ _
  · let goodEntry : Text → Value → Prop := fun name value =>
      goodText name ∧ good value
    have hOp : ∀ entry ∈ Fields.set [] "op" (.text "case"),
        goodEntry entry.1 entry.2 :=
      List.forall_mem_singleton.mpr
        ⟨hGood.word "op" (by decide),
          hGood.text (hGood.word "case" (by decide))⟩
    exact Fields.forall_mem_set goodEntry
      (Fields.forall_mem_set goodEntry hOp ⟨hKey, hGuard⟩)
      ⟨hGood.word "result" (by decide), hResult⟩

theorem caseForms
    {caseKey : Text}
    (hKey : goodText caseKey)
    {cases : List (Case α)}
    (hParts :
      ∀ part ∈ cases.flatMap Case.parts, good (form caseKey part)) :
    ∀ item ∈ caseForms caseKey cases, good item := by
  induction cases with
  | nil => exact fun _ hMem => absurd hMem List.not_mem_nil
  | cons entry rest ih =>
      rcases entry with ⟨guard, result⟩
      rw [List.flatMap_cons, List.forall_mem_append] at hParts
      rw [Wire.caseForms, List.forall_mem_cons]
      exact ⟨hGood.caseFields hKey (hParts.1 guard (by simp))
        (hParts.1 result (by simp)), ih hParts.2⟩

/- A step of an if-chain is good if its guard and its node are. -/
theorem branchFields
    {guard consequence : Value}
    (hGuard : good guard)
    (hConsequence : good consequence) :
    good (.map [("if", guard), ("then", consequence)]) := by
  refine hGood.map rfl (List.forall_mem_cons.mpr ⟨?_, ?_⟩)
  · exact ⟨hGood.word "if" (by decide), hGuard⟩
  · exact List.forall_mem_singleton.mpr
      ⟨hGood.word "then" (by decide), hConsequence⟩

theorem branchForms
    {caseKey : Text}
    {branches : List (Branch α)}
    (hParts :
      ∀ part ∈ branches.flatMap Branch.parts,
        good (form caseKey part)) :
    ∀ item ∈ branchForms caseKey branches, good item := by
  induction branches with
  | nil => exact fun _ hMem => absurd hMem List.not_mem_nil
  | cons step rest ih =>
      rw [List.flatMap_cons, List.forall_mem_append] at hParts
      rcases step with ⟨guard, consequence⟩ | ⟨consequence⟩
      · rw [Wire.branchForms, List.forall_mem_cons]
        exact ⟨hGood.branchFields (hParts.1 guard (by simp))
          (hParts.1 consequence (by simp)), ih hParts.2⟩
      · rw [Wire.branchForms, List.forall_mem_cons]
        exact ⟨hGood.branchFields (hGood.bool true)
          (hParts.1 consequence (by simp)), ih hParts.2⟩

/- A node with one field besides its name. -/
theorem tagged_one
    {op name : Text}
    {value : Value}
    (hOp : goodText op)
    (hName : name ∈ words)
    (hOther : name ≠ "op")
    (hValue : good value) :
    good (Wire.tagged op [(name, value)]) := by
  refine hGood.tagged hOp ?_
    (List.forall_mem_singleton.mpr ⟨hName, hValue⟩)
  simp [Fields.areDistinct, Fields.names, hOther.symm]

/- A node with two fields besides its name. -/
theorem tagged_two
    {op left right : Text}
    {first second : Value}
    (hOp : goodText op)
    (hNames : left ∈ words ∧ right ∈ words)
    (hDistinct : left ≠ "op" ∧ right ≠ "op" ∧ left ≠ right)
    (hFirst : good first)
    (hSecond : good second) :
    good (Wire.tagged op [(left, first), (right, second)]) := by
  refine hGood.tagged hOp ?_ (List.forall_mem_cons.mpr
    ⟨⟨hNames.1, hFirst⟩,
      List.forall_mem_singleton.mpr ⟨hNames.2, hSecond⟩⟩)
  simp [Fields.areDistinct, Fields.names, hDistinct.1.symm,
    hDistinct.2.1.symm, hDistinct.2.2]

/- The wire form of a node is good if those of its parts are. -/
theorem form
    {caseKey : Text}
    (hKey : goodText caseKey)
    {node : Node α}
    (hOwn : OwnGood goodText good node)
    (hParts : ∀ part ∈ node.parts, good (form caseKey part)) :
    good (form caseKey node) := by
  have hWord {word : Text} (hMem : word ∈ words) : goodText word :=
    hGood.word word hMem
  cases node with
  | literal value embedded mark =>
      cases embedded with
      | true =>
          exact hGood.tagged_one (hWord (by decide)) (by decide)
            (by decide) hOwn
      | false => exact hOwn
  | «variable» name mark =>
      exact hGood.tagged_one (hWord (by decide)) (by decide)
        (by decide) (hGood.text hOwn)
  | assign name value mark =>
      exact hGood.tagged_two (hWord (by decide)) (by decide)
        (by decide) (hGood.text hOwn) (hParts value (by simp [Node.parts]))
  | «return» value mark =>
      exact hGood.tagged_one (hWord (by decide)) (by decide)
        (by decide) (hParts value (by simp [Node.parts]))
  | unary op operand mark =>
      exact hGood.tagged_one (hGood.unary op) (by decide)
        (by decide) (hParts operand (by simp [Node.parts]))
  | index base position mark =>
      exact hGood.tagged_two (hWord (by decide)) (by decide)
        (by decide) (hParts base (by simp [Node.parts]))
        (hParts position (by simp [Node.parts]))
  | binary op left right mark =>
      exact hGood.tagged_two (hGood.binary op) (by decide)
        (by decide) (hParts left (by simp [Node.parts]))
        (hParts right (by simp [Node.parts]))
  | sequence nodes mark =>
      exact hGood.tagged_one (hWord (by decide)) (by decide)
        (by decide) (hGood.list (forall_mem_forms hParts))
  | array nodes mark =>
      exact hGood.tagged_one (hWord (by decide)) (by decide)
        (by decide) (hGood.list (forall_mem_forms hParts))
  | variadic op operands mark =>
      exact hGood.tagged_one (hGood.variadic op) (by decide)
        (by decide) (hGood.list (forall_mem_forms hParts))
  | «switch» cases mark =>
      exact hGood.tagged_one (hWord (by decide)) (by decide)
        (by decide) (hGood.list (hGood.caseForms hKey hParts))
  | cond branches mark =>
      exact hGood.tagged_one (hWord (by decide)) (by decide)
        (by decide) (hGood.list (hGood.branchForms hParts))
  | call name arguments mark =>
      have hValues := forall_mem_forms hParts
      have hOne : goodText "value" := hWord (by decide)
      have hMany : goodText "values" := hWord (by decide)
      rw [Node.parts] at hValues
      rw [Wire.form]
      rcases positionalFields_cases (forms caseKey arguments) with
        ⟨value, hAlone, hFields⟩ | ⟨_, hFields⟩
      · rw [hAlone, List.forall_mem_singleton] at hValues
        rw [hFields]
        exact hGood.callFields hOwn rfl
          (List.forall_mem_singleton.mpr
            ⟨hOne, hValues⟩)
      · rw [hFields]
        exact hGood.callFields hOwn rfl
          (List.forall_mem_singleton.mpr
            ⟨hMany, hGood.list hValues⟩)
  | callNamed name arguments mark =>
      refine hGood.callFields hOwn.1 ?_
        (forall_mem_namedForms hOwn.2.2 hParts)
      rw [Fields.areDistinct, names_namedForms]
      exact hOwn.2.1
  | fragment part => exact hOwn.elim

end Carried

------------------------------------------------------------
-- Bounds
------------------------------------------------------------

/- Bounds go from items to lists and maps with distinct names. -/
theorem carried_isBounded :
    Carried (fun _ => True) fun value => value.isBounded = true where
  word _ _ := trivial
  unary _ := trivial
  binary _ := trivial
  variadic _ := trivial
  bool _ := rfl
  text _ := rfl
  list hItems := (Value.areBounded_iff _).mpr hItems
  map hDistinct hFields := by
    rw [Value.isBounded, Bool.and_eq_true, Value.haveBounded_iff]
    exact ⟨hDistinct, fun entry hMem => (hFields entry hMem).2⟩

theorem ownGood_of_isStatement
    {named : Bool}
    {node : Node α}
    (hNode : node.isStatement named = true) :
    OwnGood (fun _ => True) (fun value => value.isBounded = true)
      node := by
  cases node with
  | literal value embedded mark =>
      cases embedded <;>
        simp only [Node.isStatement, Node.isShaped,
          Bool.and_eq_true] at hNode <;>
        exact hNode.1
  | callNamed name arguments mark =>
      simp only [Node.isStatement, Node.isShaped,
        Bool.and_eq_true] at hNode
      exact ⟨trivial, hNode.1.2, fun _ _ => trivial⟩
  | fragment part => cases hNode
  | _ => trivial

/- The wire form of a tree of the shape of a script is within bounds. -/
theorem isBounded_form
    {named : Bool}
    {node : Node α}
    (caseKey : Text)
    (hNode : node.isStatement named = true) :
    (form caseKey node).isBounded = true := by
  induction node using Node.partsInduction with
  | hStep node ih =>
      exact carried_isBounded.form trivial
        (ownGood_of_isStatement hNode) fun part hPart =>
          ih part hPart (Node.isStatement_of_mem_parts hNode hPart)

------------------------------------------------------------
-- Surrogates
------------------------------------------------------------

end Wire

namespace Node

variable {α : Type}

/-
  Whether no text of a node itself has a high surrogate just
  before a low one.
-/
def isUnpaired : Node α → Bool
  | .assign name _ _ | .variable name _ | .call name _ _ =>
    name.isUnpaired
  | .callNamed name arguments _ =>
    name.isUnpaired &&
      arguments.all fun argument => argument.1.isUnpaired
  | .literal value _ _ => value.isUnpaired
  | _ => true

end Node

namespace Wire

variable {α : Type}

theorem carried_isUnpaired :
    Carried (fun text => text.isUnpaired = true) fun value =>
      value.isUnpaired = true where
  word := by decide
  unary op := by cases op <;> decide
  binary op := by cases op <;> decide
  variadic op := by cases op <;> decide
  bool _ := rfl
  text hText := hText
  list hItems := (Value.areUnpaired_iff _).mpr hItems
  map _ hFields := (Value.haveUnpaired_iff _).mpr hFields

theorem ownGood_of_isUnpaired
    {named : Bool}
    {node : Node α}
    (hNode : node.isStatement named = true)
    (hUnpaired : node.isUnpaired = true) :
    OwnGood (fun text => text.isUnpaired = true)
      (fun value => value.isUnpaired = true) node := by
  cases node with
  | callNamed name arguments mark =>
      simp only [Node.isStatement, Node.isShaped,
        Bool.and_eq_true] at hNode
      simp only [Node.isUnpaired, Bool.and_eq_true,
        List.all_eq_true] at hUnpaired
      exact ⟨hUnpaired.1, hNode.1.2, hUnpaired.2⟩
  | fragment part => cases hNode
  | assign | «variable» | call | literal => exact hUnpaired
  | _ => trivial

/- Texts without pairs of surrogates have a wire form without them. -/
theorem isUnpaired_form
    {named : Bool}
    {node : Node α}
    {caseKey : Text}
    (hKey : caseKey.isUnpaired = true)
    (hNode : node.isStatement named = true)
    (hUnpaired : node.all Node.isUnpaired = true) :
    (form caseKey node).isUnpaired = true := by
  induction node using Node.partsInduction with
  | hStep node ih =>
      rw [Node.all_iff] at hUnpaired
      exact carried_isUnpaired.form hKey
        (ownGood_of_isUnpaired hNode hUnpaired.1) fun part hPart =>
          ih part hPart (Node.isStatement_of_mem_parts hNode hPart)
            (hUnpaired.2 part hPart)

end Wire

end ExperimentScript
