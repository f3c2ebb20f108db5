import ExperimentScript.Proofs.Wire.Form

/-
  Constants and trees that differ in nothing but the order of
  fields.

  Two constants are alike if they are the same JSON value:
  numbers of different kinds are kept apart, and the fields of
  a map may stand in any order. Trees are compared after the
  two identifications that their wire forms make: one
  positional argument is an argument named `value`, and the
  step of an if-chain without a guard has a true one.

  Key definitions include:
    * `ExperimentScript.Value.alike`
    * `ExperimentScript.Node.normal`
    * `ExperimentScript.Node.alike`

  Main declarations:
    * `ExperimentScript.Value.alike_map_cons`
    * `ExperimentScript.Value.alike_map_append`
    * `ExperimentScript.Wire.form_normal`
-/

namespace ExperimentScript

------------------------------------------------------------
-- Constants
------------------------------------------------------------

namespace Value

mutual

/- Whether two constants are the same but for the order of fields. -/
def alike : Value → Value → Bool
  | .null, .null => true
  | .bool a, .bool b => a == b
  | .int a, .int b => a == b
  | .float a, .float b => a == b
  | .text a, .text b => a == b
  | .list as, .list bs => alikeItems as bs
  | .map as, .map bs => as.length == bs.length && alikeFields as bs
  | _, _ => false

/- Whether two lists have items that are alike, in the same order. -/
def alikeItems : List Value → List Value → Bool
  | [], [] => true
  | a :: as, b :: bs => alike a b && alikeItems as bs
  | _, _ => false

/- Whether every field has an alike one of its name. -/
def alikeFields : List (Text × Value) → List (Text × Value) → Bool
  | [], _ => true
  | (name, a) :: as, bs =>
    (match bs.lookup name with
      | some b => alike a b
      | none => false) && alikeFields as bs

end

theorem alikeFields_iff (as bs : Fields Value) :
    alikeFields as bs = true ↔
      ∀ entry ∈ as, ∃ b,
        bs.lookup entry.1 = some b ∧ entry.2.alike b = true := by
  induction as with
  | nil => simp [alikeFields]
  | cons entry as ih =>
      rw [alikeFields, Bool.and_eq_true, ih, List.forall_mem_cons]
      refine and_congr ?_ Iff.rfl
      cases bs.lookup entry.1 <;> simp

/- A field with another name is not looked at. -/
theorem alikeFields_cons_of_not_mem
    {name : Text}
    {as : Fields Value}
    (hName : name ∉ Fields.names as)
    (b : Value)
    (bs : Fields Value) :
    alikeFields as ((name, b) :: bs) = alikeFields as bs := by
  induction as with
  | nil => rfl
  | cons entry as ih =>
      rw [Fields.names, List.map_cons, List.mem_cons, not_or] at hName
      have hOther : (entry.1 == name) = false :=
        beq_false_of_ne (Ne.symm hName.1)
      rw [alikeFields, alikeFields, ih hName.2, List.lookup_cons,
        hOther]

/- Maps that begin with the same name are compared field by field. -/
theorem alike_map_cons
    {name : Text}
    {as bs : Fields Value}
    (hName : name ∉ Fields.names as)
    (a b : Value) :
    alike (.map ((name, a) :: as)) (.map ((name, b) :: bs)) =
      (a.alike b && alike (.map as) (.map bs)) := by
  have hLengths :
      (((name, a) :: as).length == ((name, b) :: bs).length) =
        (as.length == bs.length) := by
    simp
  rw [alike, alike, hLengths, alikeFields,
    alikeFields_cons_of_not_mem hName, List.lookup_cons_self]
  exact Bool.and_left_comm ..

theorem lookup_eq_none
    {name : Text}
    {fields : Fields Value}
    (hName : name ∉ Fields.names fields) :
    fields.lookup name = none := by
  refine List.lookup_eq_none_iff.mpr fun entry hMem => ?_
  refine bne_iff_ne.mpr ?_
  rintro rfl
  exact hName (List.mem_map.mpr ⟨entry, hMem, rfl⟩)

theorem alikeFields_append
    (as cs bs : Fields Value) :
    alikeFields (as ++ cs) bs =
      (alikeFields as bs && alikeFields cs bs) := by
  induction as with
  | nil => rfl
  | cons entry as ih =>
      rw [List.cons_append, alikeFields, alikeFields, ih,
        Bool.and_assoc]

/- A last field with another name is not looked at. -/
theorem alikeFields_append_of_not_mem
    {name : Text}
    {as : Fields Value}
    (hName : name ∉ Fields.names as)
    (b : Value)
    (bs : Fields Value) :
    alikeFields as (bs ++ [(name, b)]) = alikeFields as bs := by
  induction as with
  | nil => rfl
  | cons entry as ih =>
      rw [Fields.names, List.map_cons, List.mem_cons, not_or] at hName
      have hOther : (entry.1 == name) = false :=
        beq_false_of_ne (Ne.symm hName.1)
      have hLookup :
          (bs ++ [(name, b)]).lookup entry.1 = bs.lookup entry.1 := by
        rw [List.lookup_append, List.lookup_cons, hOther,
          List.lookup_nil, Option.or_none]
      rw [alikeFields, alikeFields, ih hName.2, hLookup]

/- Maps that end with the same name are compared in the same way. -/
theorem alike_map_append
    {name : Text}
    {as bs : Fields Value}
    (hFirst : name ∉ Fields.names as)
    (hSecond : name ∉ Fields.names bs)
    (a b : Value) :
    alike (.map (as ++ [(name, a)])) (.map (bs ++ [(name, b)])) =
      (alike (.map as) (.map bs) && a.alike b) := by
  have hLengths :
      ((as ++ [(name, a)]).length == (bs ++ [(name, b)]).length) =
        (as.length == bs.length) := by
    simp
  have hLast :
      alikeFields [(name, a)] (bs ++ [(name, b)]) = a.alike b := by
    rw [alikeFields, List.lookup_append, lookup_eq_none hSecond,
      Option.none_or, List.lookup_cons_self, alikeFields,
      Bool.and_true]
  rw [alike, alike, hLengths, alikeFields_append,
    alikeFields_append_of_not_mem hFirst, hLast, Bool.and_assoc]

end Value

------------------------------------------------------------
-- Trees
------------------------------------------------------------

namespace Node

variable {α β : Type}

/- A call with positional arguments; one alone is named `value`. -/
def callOf (name : Text) : List (Node Unit) → Node Unit
  | [argument] => .callNamed name [("value", argument)] ()
  | arguments => .call name arguments ()

mutual

/- A tree without marks in which what is identified is the same. -/
def normal : Node α → Node Unit
  | .sequence body _ => .sequence (normalAll body) ()
  | .assign name value _ => .assign name (normal value) ()
  | .return value _ => .return (normal value) ()
  | .variable name _ => .variable name ()
  | .literal value embedded _ => .literal value embedded ()
  | .array items _ => .array (normalAll items) ()
  | .index base position _ =>
    .index (normal base) (normal position) ()
  | .call name arguments _ => callOf name (normalAll arguments)
  | .callNamed name arguments _ =>
    .callNamed name (normalArguments arguments) ()
  | .unary op operand _ => .unary op (normal operand) ()
  | .binary op left right _ =>
    .binary op (normal left) (normal right) ()
  | .variadic op operands _ => .variadic op (normalAll operands) ()
  | .switch cases _ => .switch (normalCases cases) ()
  | .cond steps _ => .cond (normalSteps steps) ()
  | .fragment part => .fragment part

/- Some trees in this form. -/
def normalAll : List (Node α) → List (Node Unit)
  | [] => []
  | node :: rest => normal node :: normalAll rest

/- Some named arguments in this form. -/
def normalArguments :
    List (Text × Node α) → List (Text × Node Unit)
  | [] => []
  | (name, node) :: rest => (name, normal node) :: normalArguments rest

/- Some cases in this form. -/
def normalCases : List (Case α) → List (Case Unit)
  | [] => []
  | .mk guard result :: rest =>
    .mk (normal guard) (normal result) :: normalCases rest

/- The steps of an if-chain in this form, each with a guard. -/
def normalSteps : List (Branch α) → List (Branch Unit)
  | [] => []
  | .test guard node :: rest =>
    .test (normal guard) (normal node) :: normalSteps rest
  | .otherwise node :: rest =>
    .test (.literal (.bool true) false ()) (normal node) ::
      normalSteps rest

end

mutual

/-
  Whether two trees are the same but for their marks and the
  order of named arguments and of embedded fields.
-/
def alike : Node α → Node β → Bool
  | .sequence as _, .sequence bs _ => alikeNodes as bs
  | .assign x a _, .assign y b _ => x == y && alike a b
  | .return a _, .return b _ => alike a b
  | .variable x _, .variable y _ => x == y
  | .literal v e _, .literal w f _ => v.alike w && e == f
  | .array as _, .array bs _ => alikeNodes as bs
  | .index a i _, .index b j _ => alike a b && alike i j
  | .call x as _, .call y bs _ => x == y && alikeNodes as bs
  | .callNamed x as _, .callNamed y bs _ =>
    x == y && (as.length == bs.length && alikeArguments as bs)
  | .unary o a _, .unary p b _ => o == p && alike a b
  | .binary o a c _, .binary p b d _ =>
    o == p && (alike a b && alike c d)
  | .variadic o as _, .variadic p bs _ => o == p && alikeNodes as bs
  | .switch as _, .switch bs _ => alikeCases as bs
  | .cond as _, .cond bs _ => alikeSteps as bs
  | .fragment p, .fragment q => p == q
  | _, _ => false

/- Whether two lists of nodes are alike node by node. -/
def alikeNodes : List (Node α) → List (Node β) → Bool
  | [], [] => true
  | a :: as, b :: bs => alike a b && alikeNodes as bs
  | _, _ => false

/- Whether every argument has an alike one of its name. -/
def alikeArguments :
    List (Text × Node α) → List (Text × Node β) → Bool
  | [], _ => true
  | (name, a) :: as, bs =>
    (match bs.lookup name with
      | some b => alike a b
      | none => false) && alikeArguments as bs

/- Whether two lists of cases are alike case by case. -/
def alikeCases : List (Case α) → List (Case β) → Bool
  | [], [] => true
  | .mk g a :: as, .mk h b :: bs =>
    (alike g h && alike a b) && alikeCases as bs
  | _, _ => false

/- Whether two if-chains are alike step by step. -/
def alikeSteps : List (Branch α) → List (Branch β) → Bool
  | [], [] => true
  | .test g a :: as, .test h b :: bs =>
    (alike g h && alike a b) && alikeSteps as bs
  | .otherwise a :: as, .otherwise b :: bs =>
    alike a b && alikeSteps as bs
  | _, _ => false

end

theorem normalAll_eq_map (nodes : List (Node α)) :
    normalAll nodes = nodes.map normal := by
  induction nodes with
  | nil => rfl
  | cons node rest ih => rw [normalAll, ih, List.map_cons]

end Node

------------------------------------------------------------
-- Wire Forms
------------------------------------------------------------

namespace Wire

variable {α : Type}
variable {caseKey : Text}

theorem forms_normalAll
    {nodes : List (Node α)}
    (hNodes :
      ∀ node ∈ nodes, form caseKey node.normal = form caseKey node) :
    forms caseKey (Node.normalAll nodes) = forms caseKey nodes := by
  rw [Node.normalAll_eq_map, forms_eq_map, forms_eq_map, List.map_map]
  exact List.map_congr_left hNodes

theorem namedForms_normalArguments
    {arguments : List (Text × Node α)}
    (hParts :
      ∀ node ∈ arguments.map Prod.snd,
        form caseKey node.normal = form caseKey node) :
    namedForms caseKey (Node.normalArguments arguments) =
      namedForms caseKey arguments := by
  induction arguments with
  | nil => rfl
  | cons argument rest ih =>
      rw [List.map_cons, List.forall_mem_cons] at hParts
      rw [Node.normalArguments, namedForms, namedForms, hParts.1,
        ih hParts.2]

theorem caseForms_normalCases
    {cases : List (Case α)}
    (hParts :
      ∀ node ∈ cases.flatMap Case.parts,
        form caseKey node.normal = form caseKey node) :
    caseForms caseKey (Node.normalCases cases) =
      caseForms caseKey cases := by
  induction cases with
  | nil => rfl
  | cons entry rest ih =>
      rcases entry with ⟨guard, result⟩
      rw [List.flatMap_cons, List.forall_mem_append] at hParts
      rw [Node.normalCases, caseForms, caseForms,
        hParts.1 guard (by simp), hParts.1 result (by simp),
        ih hParts.2]

theorem branchForms_normalSteps
    {steps : List (Branch α)}
    (hParts :
      ∀ node ∈ steps.flatMap Branch.parts,
        form caseKey node.normal = form caseKey node) :
    branchForms caseKey (Node.normalSteps steps) =
      branchForms caseKey steps := by
  induction steps with
  | nil => rfl
  | cons step rest ih =>
      rw [List.flatMap_cons, List.forall_mem_append] at hParts
      have hRest := ih hParts.2
      rcases step with ⟨guard, consequence⟩ | ⟨consequence⟩
      · rw [Node.normalSteps, branchForms, branchForms,
          hParts.1 guard (by simp), hParts.1 consequence (by simp),
          hRest]
      · rw [Node.normalSteps, branchForms, branchForms, form,
          hParts.1 consequence (by simp), hRest]

/- A single positional argument stands where one named `value` does. -/
theorem form_callOf
    (name : Text)
    (arguments : List (Node Unit)) :
    form caseKey (Node.callOf name arguments) =
      .map (callFields name
        (positionalFields (forms caseKey arguments))) := by
  cases arguments with
  | nil => rfl
  | cons first rest => cases rest <;> rfl

/- What is identified has the same wire form. -/
theorem form_normal
    (caseKey : Text)
    (node : Node α) :
    form caseKey node.normal = form caseKey node := by
  induction node using Node.partsInduction with
  | hStep node ih =>
      cases node with
      | literal value embedded mark => cases embedded <;> rfl
      | «variable» | fragment => rfl
      | sequence | array | variadic =>
          rw [Node.parts] at ih
          rw [Node.normal, form, form, forms_normalAll ih]
      | call name arguments mark =>
          rw [Node.parts] at ih
          rw [Node.normal, form_callOf, form, forms_normalAll ih]
      | callNamed name arguments mark =>
          rw [Node.normal, form, form, namedForms_normalArguments ih]
      | assign | «return» | unary =>
          rw [Node.normal, form, form,
            ih _ (List.mem_singleton.mpr rfl)]
      | index base position mark =>
          rw [Node.normal, form, form, ih base (by simp [Node.parts]),
            ih position (by simp [Node.parts])]
      | binary op left right mark =>
          rw [Node.normal, form, form, ih left (by simp [Node.parts]),
            ih right (by simp [Node.parts])]
      | «switch» cases mark =>
          rw [Node.normal, form, form, caseForms_normalCases ih]
      | cond steps mark =>
          rw [Node.normal, form, form, branchForms_normalSteps ih]

end Wire

end ExperimentScript
