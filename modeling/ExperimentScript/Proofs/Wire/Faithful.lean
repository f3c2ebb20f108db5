import ExperimentScript.Host
import ExperimentScript.Proofs.Wire.Alike

/-
  The wire form of a script says what the script is.

  The name of a node tells of which kind it is, as long as no
  call has the name of another kind and no argument is called
  `op`. Nodes of one kind are compared by their fields, so wire
  forms are alike exactly if the trees are.

  Key definitions include:
    * `ExperimentScript.Wire.Kind`
    * `ExperimentScript.Wire.isTelling`
    * `ExperimentScript.Wire.Kindred`
    * `ExperimentScript.Wire.callsFreely`

  Main declarations:
    * `ExperimentScript.Wire.alike_form`
    * `ExperimentScript.Wire.encode_alike_iff`
-/

namespace ExperimentScript

namespace Wire

variable {α : Type}

------------------------------------------------------------
-- Kinds Of Nodes
------------------------------------------------------------

/- What the name of a node in its wire form has to tell. -/
inductive Kind where
  | plain
  | embedded
  | sequence
  | assign
  | return
  | variable
  | array
  | index
  | call (name : Text)
  | unary (op : UnaryOp)
  | binary (op : BinaryOp)
  | variadic (op : VariadicOp)
  | switch
  | cond
deriving DecidableEq

/- The kind of a node; a fragment has no wire form. -/
def Kind.of : Node α → Kind
  | .sequence _ _ => .sequence
  | .assign _ _ _ => .assign
  | .return _ _ => .return
  | .variable _ _ => .variable
  | .literal _ true _ => .embedded
  | .literal _ false _ => .plain
  | .array _ _ => .array
  | .index _ _ _ => .index
  | .call name _ _ | .callNamed name _ _ => .call name
  | .unary op _ _ => .unary op
  | .binary op _ _ _ => .binary op
  | .variadic op _ _ => .variadic op
  | .switch _ _ => .switch
  | .cond _ _ => .cond
  | .fragment _ => .plain

/- The name of a node of a kind, which a plain constant has not. -/
def Kind.op? : Kind → Option Text
  | .plain => none
  | .embedded => some "literal"
  | .sequence => some "seq"
  | .assign => some "set"
  | .return => some "return"
  | .variable => some "get"
  | .array => some "array"
  | .index => some "index"
  | .call name => some name
  | .unary op => some (unaryName op)
  | .binary op => some (binaryName op)
  | .variadic op => some (variadicName op)
  | .switch => some "switch"
  | .cond => some "cond"

/- The kinds that have a name of their own. -/
def Kind.fixed : List Kind :=
  [.embedded, .sequence, .assign, .return, .variable, .array, .index,
    .unary .negate, .unary .not, .binary .modulo, .binary .divide,
    .binary .greater, .binary .less, .binary .equals,
    .binary .lessEqual, .binary .greaterEqual, .variadic .sum,
    .variadic .product, .variadic .or, .variadic .and,
    .variadic .coalesce, .switch, .cond]

/- The kind that a name tells. -/
def Kind.ofName (name : Text) : Kind :=
  (fixed.find? fun kind => kind.op? == some name).getD (.call name)

/- A name that no kind has is left to calls. -/
def isFree (name : Text) : Bool :=
  Kind.fixed.all fun kind => kind.op? != some name

/- A kind is told by its name, a call by one that is free. -/
theorem Kind.ofName_of_op?
    {kind : Kind}
    (hFree : ∀ name, kind = .call name → isFree name = true)
    {name : Text}
    (hName : kind.op? = some name) :
    Kind.ofName name = kind := by
  cases kind with
  | plain => cases hName
  | call own =>
      cases hName
      have hNone :
          fixed.find? (fun kind => kind.op? == some name) = none := by
        rw [List.find?_eq_none]
        intro kind hMem
        have hOther := List.all_eq_true.mp (hFree name rfl) kind hMem
        simpa using hOther
      rw [ofName, hNone]
      rfl
  | unary op =>
      cases hName
      cases op <;> decide
  | binary op =>
      cases hName
      cases op <;> decide
  | variadic op =>
      cases hName
      cases op <;> decide
  | _ =>
      cases hName
      decide

------------------------------------------------------------
-- Nodes That Tell Their Kind
------------------------------------------------------------

/- Whether a step of an if-chain has a guard. -/
def hasGuard : Branch α → Bool
  | .test _ _ => true
  | .otherwise _ => false

/-
  Whether the wire form of a node tells its kind and its parts.
  A call has no single positional argument, which stands like
  a named one, and no argument in the place of its name.
-/
def isTelling : Node α → Bool
  | .literal value embedded _ => embedded || value.isScalar
  | .call name arguments _ => isFree name && arguments.length != 1
  | .callNamed name arguments _ =>
    isFree name && !(Fields.names arguments).contains "op"
  | .cond steps _ => steps.all hasGuard
  | .fragment _ => false
  | _ => true

section Telling

variable {caseKey : Text}

/- A map whose field `op` holds a text. -/
def Tells (name : Text) (value : Value) : Prop :=
  ∃ fields, value = .map fields ∧
    Fields.get? fields "op" = some (.text name)

theorem tells_tagged
    (op : Text)
    (fields : Fields Value) :
    Tells op (tagged op fields) :=
  ⟨_, rfl, List.lookup_cons_self⟩

theorem callFields_eq
    {name : Text}
    {fields : Fields Value}
    (hOp : ("op" : Text) ∉ Fields.names fields) :
    callFields name fields = fields ++ [(("op" : Text), .text name)] :=
  Fields.set_of_not_mem hOp _

theorem tells_callFields
    {name : Text}
    {fields : Fields Value}
    (hOp : ("op" : Text) ∉ Fields.names fields) :
    Tells name (.map (callFields name fields)) := by
  refine ⟨_, rfl, ?_⟩
  rw [callFields_eq hOp, Fields.get?, List.lookup_append,
    Value.lookup_eq_none hOp, Option.none_or, List.lookup_cons_self]

theorem not_mem_names_positionalFields (values : List Value) :
    ("op" : Text) ∉ Fields.names (positionalFields values) := by
  rcases positionalFields_cases values with
    ⟨value, _, hFields⟩ | ⟨_, hFields⟩
  · rw [hFields]
    exact show ("op" : Text) ∉ [("value" : Text)] by decide
  · rw [hFields]
    exact show ("op" : Text) ∉ [("values" : Text)] by decide

/- The wire form of a node that tells its kind has the name of the kind. -/
theorem tells_form
    (caseKey : Text)
    {node : Node α}
    (hNode : isTelling node = true)
    {name : Text}
    (hName : (Kind.of node).op? = some name) :
    Tells name (form caseKey node) := by
  cases node with
  | literal value embedded mark =>
      cases embedded with
      | true =>
          cases hName
          exact tells_tagged _ _
      | false => cases hName
  | call own arguments mark =>
      cases hName
      exact tells_callFields (not_mem_names_positionalFields _)
  | callNamed own arguments mark =>
      cases hName
      simp only [isTelling, Bool.and_eq_true, Bool.not_eq_true',
        List.contains_eq_mem, decide_eq_false_iff_not] at hNode
      rw [← names_namedForms caseKey] at hNode
      exact tells_callFields hNode.2
  | fragment part => cases hNode
  | _ =>
      cases hName
      exact tells_tagged _ _

/- A plain constant is no map. -/
theorem form_plain
    {node : Node α}
    (hNode : isTelling node = true)
    (hKind : Kind.of node = .plain) :
    ∃ value mark, node = .literal value false mark ∧
      value.isScalar = true := by
  cases node with
  | literal value embedded mark =>
      cases embedded with
      | true => cases hKind
      | false => exact ⟨value, mark, rfl, hNode⟩
  | fragment part => cases hNode
  | _ => cases hKind

/- Alike constants have the same name, where they have one. -/
theorem eq_of_tells
    {first second : Text}
    {left right : Value}
    (hLeft : Tells first left)
    (hRight : Tells second right)
    (hAlike : left.alike right = true) :
    first = second := by
  rcases hLeft with ⟨fields, rfl, hFirst⟩
  rcases hRight with ⟨others, rfl, hSecond⟩
  rw [Value.alike, Bool.and_eq_true, Value.alikeFields_iff] at hAlike
  have hMem : (("op" : Text), Value.text first) ∈ fields := by
    rcases List.lookup_eq_some_iff.mp hFirst with
      ⟨before, after, hSplit, _⟩
    rw [hSplit]
    simp
  rcases hAlike.2 _ hMem with ⟨other, hOther, hText⟩
  rw [Fields.get?] at hSecond
  rw [hSecond] at hOther
  cases hOther
  exact beq_iff_eq.mp hText

theorem isFree_of_isTelling
    {node : Node α}
    (hNode : isTelling node = true)
    {name : Text}
    (hKind : Kind.of node = .call name) :
    isFree name = true := by
  cases node with
  | call own arguments mark =>
      cases hKind
      exact (Bool.and_eq_true_iff.mp hNode).1
  | callNamed own arguments mark =>
      cases hKind
      exact (Bool.and_eq_true_iff.mp hNode).1
  | literal value embedded mark => cases embedded <;> cases hKind
  | _ => cases hKind

/- A scalar is not alike a map. -/
theorem not_alike_of_isScalar
    {value other : Value}
    {name : Text}
    (hScalar : value.isScalar = true)
    (hTells : Tells name other) :
    value.alike other = false ∧ other.alike value = false := by
  rcases hTells with ⟨fields, rfl, _⟩
  cases value with
  | list items => cases hScalar
  | map fields => cases hScalar
  | _ => exact ⟨rfl, rfl⟩

theorem op?_eq_none
    {kind : Kind}
    (hName : kind.op? = none) :
    kind = .plain := by
  cases kind with
  | plain => rfl
  | _ => cases hName

/- Nodes with alike wire forms are of one kind. -/
theorem kind_eq_of_alike_form
    {β : Type}
    {left : Node α}
    {right : Node β}
    (hLeft : isTelling left = true)
    (hRight : isTelling right = true)
    (hAlike :
      (form caseKey left).alike (form caseKey right) = true) :
    Kind.of left = Kind.of right := by
  cases hFirst : (Kind.of left).op? with
  | none =>
      have hPlain := op?_eq_none hFirst
      rcases form_plain hLeft hPlain with ⟨value, mark, rfl, hScalar⟩
      cases hSecond : (Kind.of right).op? with
      | none => rw [hPlain, op?_eq_none hSecond]
      | some name =>
          have hTells := tells_form caseKey hRight hSecond
          have hNot := (not_alike_of_isScalar hScalar hTells).1
          exact absurd hAlike (Bool.eq_false_iff.mp hNot)
  | some name =>
      have hTells := tells_form caseKey hLeft hFirst
      cases hSecond : (Kind.of right).op? with
      | none =>
          rcases form_plain hRight (op?_eq_none hSecond) with
            ⟨value, mark, rfl, hScalar⟩
          have hNot := (not_alike_of_isScalar hScalar hTells).2
          exact absurd hAlike (Bool.eq_false_iff.mp hNot)
      | some other =>
          have hSame :=
            eq_of_tells hTells (tells_form caseKey hRight hSecond) hAlike
          rw [← Kind.ofName_of_op?
              (fun _ => isFree_of_isTelling hLeft) hFirst,
            ← Kind.ofName_of_op?
              (fun _ => isFree_of_isTelling hRight) hSecond, hSame]

/- Trees that are alike are of one kind. -/
theorem kind_eq_of_alike
    {β : Type}
    {left : Node α}
    {right : Node β}
    (hAlike : left.alike right = true) :
    Kind.of left = Kind.of right := by
  cases left with
  | literal value embedded mark =>
      cases right with
      | literal other quoted mark' =>
          rw [Node.alike, Bool.and_eq_true, beq_iff_eq] at hAlike
          rw [hAlike.2]
          cases quoted <;> rfl
      | _ => cases hAlike
  | call name arguments mark =>
      cases right with
      | call other arguments' mark' =>
          rw [Node.alike, Bool.and_eq_true, beq_iff_eq] at hAlike
          exact congrArg Kind.call hAlike.1
      | _ => cases hAlike
  | callNamed name arguments mark =>
      cases right with
      | callNamed other arguments' mark' =>
          rw [Node.alike, Bool.and_eq_true, beq_iff_eq] at hAlike
          exact congrArg Kind.call hAlike.1
      | _ => cases hAlike
  | unary op operand mark =>
      cases right with
      | unary op' operand' mark' =>
          rw [Node.alike, Bool.and_eq_true, beq_iff_eq] at hAlike
          exact congrArg Kind.unary hAlike.1
      | _ => cases hAlike
  | binary op first second mark =>
      cases right with
      | binary op' first' second' mark' =>
          rw [Node.alike, Bool.and_eq_true, beq_iff_eq] at hAlike
          exact congrArg Kind.binary hAlike.1
      | _ => cases hAlike
  | variadic op operands mark =>
      cases right with
      | variadic op' operands' mark' =>
          rw [Node.alike, Bool.and_eq_true, beq_iff_eq] at hAlike
          exact congrArg Kind.variadic hAlike.1
      | _ => cases hAlike
  | _ =>
      cases right <;> first
        | rfl
        | cases hAlike

end Telling

------------------------------------------------------------
-- Fields Of Nodes
------------------------------------------------------------

theorem alike_one
    (name : Text)
    (a b : Value) :
    (Value.map [(name, a)]).alike (.map [(name, b)]) = a.alike b := by
  rw [Value.alike_map_cons (by simp [Fields.names])]
  exact Bool.and_true _

theorem alike_two
    {first second : Text}
    (hOther : first ≠ second)
    (a b c d : Value) :
    (Value.map [(first, a), (second, b)]).alike
        (.map [(first, c), (second, d)]) =
      (a.alike c && b.alike d) := by
  rw [Value.alike_map_cons (by simpa [Fields.names] using hOther),
    alike_one]

/- Nodes of one name are compared by their other fields. -/
theorem alike_tagged
    (op : Text)
    {as bs : Fields Value}
    (hOp : ("op" : Text) ∉ Fields.names as) :
    (tagged op as).alike (tagged op bs) =
      (Value.map as).alike (.map bs) := by
  have hSame : (Value.text op).alike (.text op) = true :=
    beq_self_eq_true op
  rw [tagged, tagged, Value.alike_map_cons hOp, hSame, Bool.true_and]

theorem alike_tagged_one
    {op name : Text}
    (hOp : name ≠ "op")
    (a b : Value) :
    (tagged op [(name, a)]).alike (tagged op [(name, b)]) =
      a.alike b := by
  rw [alike_tagged op (by simpa [Fields.names] using hOp.symm),
    alike_one]

theorem alike_tagged_two
    {op first second : Text}
    (hNames : first ≠ "op" ∧ second ≠ "op" ∧ first ≠ second)
    (a b c d : Value) :
    (tagged op [(first, a), (second, b)]).alike
        (tagged op [(first, c), (second, d)]) =
      (a.alike c && b.alike d) := by
  rw [alike_tagged op
      (by simp [Fields.names, hNames.1.symm, hNames.2.1.symm]),
    alike_two hNames.2.2]

theorem alike_callFields
    {name : Text}
    {as bs : Fields Value}
    (hFirst : ("op" : Text) ∉ Fields.names as)
    (hSecond : ("op" : Text) ∉ Fields.names bs) :
    (Value.map (callFields name as)).alike
        (.map (callFields name bs)) =
      (Value.map as).alike (.map bs) := by
  have hSame : (Value.text name).alike (.text name) = true :=
    beq_self_eq_true name
  rw [callFields_eq hFirst, callFields_eq hSecond,
    Value.alike_map_append hFirst hSecond, hSame, Bool.and_true]

theorem alike_caseFields
    {caseKey : Text}
    (hOp : caseKey ≠ "op")
    (hResult : caseKey ≠ "result")
    (g a h b : Value) :
    (Value.map (caseFields caseKey g a)).alike
        (.map (caseFields caseKey h b)) =
      (g.alike h && a.alike b) := by
  have hFields :
      ∀ guard result : Value,
        Value.map (caseFields caseKey guard result) =
          tagged "case" [(caseKey, guard), ("result", result)] := by
    intro guard result
    have hFirst : ("op" : Text) ≠ "result" := by decide
    simp [caseFields, Fields.set, tagged, hOp.symm, hResult, hFirst]
  rw [hFields, hFields,
    alike_tagged_two ⟨hOp, by decide, hResult⟩]

------------------------------------------------------------
-- Parts Of Nodes
------------------------------------------------------------

section Parts

variable {caseKey : Text}

/-
  A tree whose wire form is alike that of another exactly if
  the trees are.
-/
def Told
    (caseKey : Text)
    (left : Node Unit) : Prop :=
  ∀ right : Node Unit, right.all isTelling = true →
    (form caseKey left).alike (form caseKey right) = left.alike right

theorem alikeItems_forms
    {as bs : List (Node Unit)}
    (hLeft : ∀ node ∈ as, Told caseKey node)
    (hRight : ∀ node ∈ bs, node.all isTelling = true) :
    Value.alikeItems (forms caseKey as) (forms caseKey bs) =
      Node.alikeNodes as bs := by
  induction as generalizing bs with
  | nil => cases bs <;> rfl
  | cons a as ih =>
      cases bs with
      | nil => rfl
      | cons b bs =>
          rw [List.forall_mem_cons] at hLeft hRight
          rw [forms, forms, Value.alikeItems, Node.alikeNodes,
            hLeft.1 b hRight.1, ih hLeft.2 hRight.2]

theorem lookup_namedForms
    (arguments : List (Text × Node Unit))
    (name : Text) :
    (namedForms caseKey arguments).lookup name =
      (arguments.lookup name).map (form caseKey) := by
  induction arguments with
  | nil => rfl
  | cons argument rest ih =>
      rw [namedForms, List.lookup_cons, List.lookup_cons, ih]
      cases name == argument.1 <;> rfl

theorem alikeFields_namedForms
    {as bs : List (Text × Node Unit)}
    (hLeft : ∀ node ∈ as.map Prod.snd, Told caseKey node)
    (hRight : ∀ node ∈ bs.map Prod.snd, node.all isTelling = true) :
    Value.alikeFields (namedForms caseKey as)
        (namedForms caseKey bs) =
      Node.alikeArguments as bs := by
  induction as with
  | nil => rfl
  | cons argument as ih =>
      rw [List.map_cons, List.forall_mem_cons] at hLeft
      rw [namedForms, Value.alikeFields, Node.alikeArguments,
        ih hLeft.2, lookup_namedForms]
      cases hLookup : bs.lookup argument.1 with
      | none => rfl
      | some b =>
          have hMem : b ∈ bs.map Prod.snd := by
            rcases List.lookup_eq_some_iff.mp hLookup with
              ⟨before, after, hSplit, _⟩
            rw [hSplit]
            simp
          rw [Option.map_some]
          exact congrArg (· && _) (hLeft.1 b (hRight b hMem))

theorem alikeItems_caseForms
    (hOp : caseKey ≠ "op")
    (hResult : caseKey ≠ "result")
    {as bs : List (Case Unit)}
    (hLeft : ∀ node ∈ as.flatMap Case.parts, Told caseKey node)
    (hRight :
      ∀ node ∈ bs.flatMap Case.parts, node.all isTelling = true) :
    Value.alikeItems (caseForms caseKey as) (caseForms caseKey bs) =
      Node.alikeCases as bs := by
  induction as generalizing bs with
  | nil =>
      cases bs with
      | nil => rfl
      | cons entry bs => cases entry; rfl
  | cons entry as ih =>
      rcases entry with ⟨g, a⟩
      cases bs with
      | nil => rfl
      | cons entry bs =>
          rcases entry with ⟨h, b⟩
          rw [List.flatMap_cons, List.forall_mem_append]
            at hLeft hRight
          have hGuard :=
            hLeft.1 g (by simp) h (hRight.1 h (by simp))
          have hNode :=
            hLeft.1 a (by simp) b (hRight.1 b (by simp))
          rw [caseForms, caseForms, Value.alikeItems, Node.alikeCases,
            alike_caseFields hOp hResult, hGuard, hNode,
            ih hLeft.2 hRight.2]

theorem alikeItems_branchForms
    {as bs : List (Branch Unit)}
    (hGuards : as.all hasGuard = true ∧ bs.all hasGuard = true)
    (hLeft : ∀ node ∈ as.flatMap Branch.parts, Told caseKey node)
    (hRight :
      ∀ node ∈ bs.flatMap Branch.parts, node.all isTelling = true) :
    Value.alikeItems (branchForms caseKey as)
        (branchForms caseKey bs) =
      Node.alikeSteps as bs := by
  induction as generalizing bs with
  | nil =>
      cases bs with
      | nil => rfl
      | cons step bs => cases step <;> rfl
  | cons step as ih =>
      rcases step with ⟨g, a⟩ | ⟨a⟩
      · cases bs with
        | nil => rfl
        | cons step bs =>
            rcases step with ⟨h, b⟩ | ⟨b⟩
            · simp only [List.all_cons, hasGuard, Bool.true_and]
                at hGuards
              rw [List.flatMap_cons, List.forall_mem_append]
                at hLeft hRight
              have hGuard :=
                hLeft.1 g (by simp) h (hRight.1 h (by simp))
              have hNode :=
                hLeft.1 a (by simp) b (hRight.1 b (by simp))
              rw [branchForms, branchForms, Value.alikeItems,
                Node.alikeSteps, alike_two (by decide), hGuard, hNode,
                ih hGuards hLeft.2 hRight.2]
            · cases hGuards.2
      · cases hGuards.1

------------------------------------------------------------
-- Nodes
------------------------------------------------------------

/- The wire form of a node is no list. -/
theorem form_ne_list
    {node : Node Unit}
    (hNode : isTelling node = true)
    (items : List Value) :
    form caseKey node ≠ .list items := by
  intro hList
  cases hName : (Kind.of node).op? with
  | none =>
      rcases form_plain hNode (op?_eq_none hName) with
        ⟨value, mark, rfl, hScalar⟩
      rw [form] at hList
      rw [hList] at hScalar
      cases hScalar
  | some name =>
      rcases tells_form caseKey hNode hName with ⟨fields, hMap, _⟩
      rw [hMap] at hList
      cases hList

theorem alike_list_eq_false
    {value : Value}
    (hOther : ∀ items, value ≠ .list items)
    (items : List Value) :
    value.alike (.list items) = false ∧
      (Value.list items).alike value = false := by
  cases value with
  | list others => exact absurd rfl (hOther others)
  | _ => exact ⟨rfl, rfl⟩

/- A map with one field is alike one with no field that differs. -/
theorem exists_of_alike_one
    {name : Text}
    {a : Value}
    {fields : Fields Value}
    (hAlike :
      (Value.map [(name, a)]).alike (.map fields) = true ∨
        (Value.map fields).alike (.map [(name, a)]) = true) :
    ∃ entry, fields = [entry] ∧
      (a.alike entry.2 = true ∨ entry.2.alike a = true) := by
  simp only [Value.alike, Bool.and_eq_true, beq_iff_eq,
    Value.alikeFields_iff] at hAlike
  have hLength : fields.length = 1 := by
    rcases hAlike with hAlike | hAlike
    · exact hAlike.1.symm
    · exact hAlike.1
  rcases List.length_eq_one_iff.mp hLength with ⟨entry, rfl⟩
  refine ⟨entry, rfl, ?_⟩
  rcases hAlike with hAlike | hAlike
  · rcases hAlike.2 _ (List.mem_singleton.mpr rfl) with
      ⟨b, hLookup, hField⟩
    rcases List.lookup_eq_some_iff.mp hLookup with
      ⟨before, after, hSplit, _⟩
    have hMem : (name, b) ∈ [entry] := by
      rw [hSplit]
      simp
    rw [← List.mem_singleton.mp hMem]
    exact .inl hField
  · rcases hAlike.2 _ (List.mem_singleton.mpr rfl) with
      ⟨b, hLookup, hField⟩
    rcases List.lookup_eq_some_iff.mp hLookup with
      ⟨before, after, hSplit, _⟩
    have hMem : (entry.1, b) ∈ [(name, a)] := by
      rw [hSplit]
      simp
    cases List.mem_singleton.mp hMem
    exact .inr hField

/- Positional arguments are a list unless there is one alone. -/
theorem positionalFields_forms
    {as : List (Node Unit)}
    (hMany : as.length ≠ 1) :
    positionalFields (forms caseKey as) =
      [(("values" : Text), .list (forms caseKey as))] := by
  rcases positionalFields_cases (forms caseKey as) with
    ⟨value, hOne, _⟩ | ⟨_, hFields⟩
  · have hLength : (forms caseKey as).length = 1 := by
      rw [hOne]
      rfl
    rw [forms_eq_map, List.length_map] at hLength
    exact absurd hLength hMany
  · exact hFields

/-
  A list of positional arguments is not alike an argument of
  the same name, whose wire form is no list.
-/
theorem positional_ne_named
    {as : List (Node Unit)}
    {bs : List (Text × Node Unit)}
    (hPositional : as.length ≠ 1)
    (hNamed :
      ∀ node ∈ bs.map Prod.snd, isTelling node = true) :
    (Value.map (positionalFields (forms caseKey as))).alike
        (.map (namedForms caseKey bs)) = false ∧
      (Value.map (namedForms caseKey bs)).alike
        (.map (positionalFields (forms caseKey as))) = false := by
  have hNone {entry : Text × Value}
      (hOnly : namedForms caseKey bs = [entry])
      (items : List Value) :
      entry.2 ≠ .list items := by
    have hMem : entry ∈ namedForms caseKey bs := by
      rw [hOnly]
      exact List.mem_singleton.mpr rfl
    rw [namedForms_eq_map] at hMem
    rcases List.mem_map.mp hMem with ⟨argument, hArgument, rfl⟩
    exact form_ne_list
      (hNamed _ (List.mem_map.mpr ⟨argument, hArgument, rfl⟩)) items
  have hNot :
      ¬ ((Value.map (positionalFields (forms caseKey as))).alike
            (.map (namedForms caseKey bs)) = true ∨
          (Value.map (namedForms caseKey bs)).alike
            (.map (positionalFields (forms caseKey as))) = true) := by
    intro hAlike
    rw [positionalFields_forms hPositional] at hAlike
    rcases exists_of_alike_one hAlike with ⟨entry, hOnly, hField⟩
    have hLists :=
      alike_list_eq_false (hNone hOnly) (forms caseKey as)
    rcases hField with hField | hField
    · rw [hLists.2] at hField
      cases hField
    · rw [hLists.1] at hField
      cases hField
  exact
    ⟨Bool.eq_false_iff.mpr fun hAlike => hNot (.inl hAlike),
      Bool.eq_false_iff.mpr fun hAlike => hNot (.inr hAlike)⟩

/- The op field of named arguments is left for the name of the call. -/
theorem not_mem_names_of_isTelling
    {name : Text}
    {arguments : List (Text × Node Unit)}
    {mark : Unit}
    (hNode : isTelling (.callNamed name arguments mark) = true) :
    ("op" : Text) ∉ Fields.names (namedForms caseKey arguments) := by
  simp only [isTelling, Bool.and_eq_true, Bool.not_eq_true',
    List.contains_eq_mem, decide_eq_false_iff_not] at hNode
  rw [names_namedForms]
  exact hNode.2

theorem length_ne_one_of_isTelling
    {name : Text}
    {arguments : List (Node Unit)}
    {mark : Unit}
    (hNode : isTelling (.call name arguments mark) = true) :
    arguments.length ≠ 1 :=
  bne_iff_ne.mp (Bool.and_eq_true_iff.mp hNode).2

theorem alike_form_calls
    {name : Text}
    {as bs : List (Node Unit)}
    (hFirst : isTelling (.call name as ()) = true)
    (hSecond : isTelling (.call name bs ()) = true)
    (hLeft : ∀ node ∈ as, Told caseKey node)
    (hRight : ∀ node ∈ bs, node.all isTelling = true) :
    (form caseKey (.call name as ())).alike
        (form caseKey (.call name bs ())) =
      Node.alikeNodes as bs := by
  rw [form, form,
    alike_callFields (not_mem_names_positionalFields _)
      (not_mem_names_positionalFields _),
    positionalFields_forms (length_ne_one_of_isTelling hFirst),
    positionalFields_forms (length_ne_one_of_isTelling hSecond),
    alike_one]
  exact alikeItems_forms hLeft hRight

theorem alike_form_namedCalls
    {name : Text}
    {as bs : List (Text × Node Unit)}
    (hFirst : isTelling (.callNamed name as ()) = true)
    (hSecond : isTelling (.callNamed name bs ()) = true)
    (hLeft : ∀ node ∈ as.map Prod.snd, Told caseKey node)
    (hRight : ∀ node ∈ bs.map Prod.snd, node.all isTelling = true) :
    (form caseKey (.callNamed name as ())).alike
        (form caseKey (.callNamed name bs ())) =
      (as.length == bs.length && Node.alikeArguments as bs) := by
  rw [form, form,
    alike_callFields (not_mem_names_of_isTelling hFirst)
      (not_mem_names_of_isTelling hSecond),
    Value.alike, alikeFields_namedForms hLeft hRight,
    namedForms_eq_map, namedForms_eq_map, List.length_map,
    List.length_map]

/- Positional arguments are not told as named ones, nor the other way. -/
theorem not_alike_form_calls
    {name : Text}
    {as : List (Node Unit)}
    {bs : List (Text × Node Unit)}
    (hFirst : isTelling (.call name as ()) = true)
    (hSecond : isTelling (.callNamed name bs ()) = true)
    (hNamed : ∀ node ∈ bs.map Prod.snd, node.all isTelling = true) :
    (form caseKey (.call name as ())).alike
        (form caseKey (.callNamed name bs ())) = false ∧
      (form caseKey (.callNamed name bs ())).alike
        (form caseKey (.call name as ())) = false := by
  have hPositional :
      ("op" : Text) ∉
        Fields.names (positionalFields (forms caseKey as)) :=
    not_mem_names_positionalFields _
  have hFields :
      ("op" : Text) ∉ Fields.names (namedForms caseKey bs) :=
    not_mem_names_of_isTelling hSecond
  rw [form, form, alike_callFields hPositional hFields,
    alike_callFields hFields hPositional]
  exact
    positional_ne_named (length_ne_one_of_isTelling hFirst)
      fun node hMem => ((Node.all_iff _).mp (hNamed node hMem)).1

/- Two nodes of one kind, of which the parts may differ. -/
inductive Kindred : Node Unit → Node Unit → Prop where
  | sequence (as bs : List (Node Unit)) :
      Kindred (.sequence as ()) (.sequence bs ())
  | array (as bs : List (Node Unit)) :
      Kindred (.array as ()) (.array bs ())
  | variadic (op : VariadicOp) (as bs : List (Node Unit)) :
      Kindred (.variadic op as ()) (.variadic op bs ())
  | assign (name other : Text) (a b : Node Unit) :
      Kindred (.assign name a ()) (.assign other b ())
  | return (a b : Node Unit) :
      Kindred (.return a ()) (.return b ())
  | unary (op : UnaryOp) (a b : Node Unit) :
      Kindred (.unary op a ()) (.unary op b ())
  | variable (name other : Text) :
      Kindred (.variable name ()) (.variable other ())
  | index (a b i j : Node Unit) :
      Kindred (.index a i ()) (.index b j ())
  | binary (op : BinaryOp) (a b i j : Node Unit) :
      Kindred (.binary op a i ()) (.binary op b j ())
  | switch (as bs : List (Case Unit)) :
      Kindred (.switch as ()) (.switch bs ())
  | cond (as bs : List (Branch Unit)) :
      Kindred (.cond as ()) (.cond bs ())
  | literal (embedded : Bool) (v w : Value) :
      Kindred (.literal v embedded ()) (.literal w embedded ())
  | calls (name : Text) (as bs : List (Node Unit)) :
      Kindred (.call name as ()) (.call name bs ())
  | namedCalls (name : Text) (as bs : List (Text × Node Unit)) :
      Kindred (.callNamed name as ()) (.callNamed name bs ())
  | callNamed
      (name : Text)
      (as : List (Node Unit))
      (bs : List (Text × Node Unit)) :
      Kindred (.call name as ()) (.callNamed name bs ())
  | namedCall
      (name : Text)
      (as : List (Text × Node Unit))
      (bs : List (Node Unit)) :
      Kindred (.callNamed name as ()) (.call name bs ())

theorem kindred_of_kind_eq
    {left right : Node Unit}
    (hLeft : isTelling left = true)
    (hRight : isTelling right = true)
    (hKind : Kind.of left = Kind.of right) :
    Kindred left right := by
  cases left with
  | fragment part => cases hLeft
  | literal v embedded mark =>
      cases right with
      | fragment part => cases hRight
      | literal w quoted mark' =>
          cases embedded <;> cases quoted <;> cases hKind <;>
            exact .literal _ v w
      | _ => cases embedded <;> cases hKind
  | _ =>
      cases right with
      | literal w quoted mark' => cases quoted <;> cases hKind
      | _ => cases hKind <;> constructor

/-
  Nodes of one kind have alike wire forms exactly if they are
  alike, given that this holds of the parts of the first.
-/
theorem alike_form_of_kindred
    (hOp : caseKey ≠ "op")
    (hResult : caseKey ≠ "result")
    {left right : Node Unit}
    (hKindred : Kindred left right)
    (hLeft : left.all isTelling = true)
    (hRight : right.all isTelling = true)
    (hParts : ∀ part ∈ left.parts, Told caseKey part) :
    (form caseKey left).alike (form caseKey right) =
      left.alike right := by
  rw [Node.all_iff] at hLeft hRight
  cases hKindred with
  | sequence as bs | array as bs =>
      rw [form, form, alike_tagged_one (by decide)]
      exact alikeItems_forms hParts hRight.2
  | variadic op as bs =>
      rw [form, form, alike_tagged_one (by decide), Node.alike,
        beq_self_eq_true, Bool.true_and]
      exact alikeItems_forms hParts hRight.2
  | assign name other a b =>
      rw [form, form, alike_tagged_two (by decide), Node.alike,
        hParts a (by simp [Node.parts]) b
          (hRight.2 b (by simp [Node.parts]))]
      rfl
  | «return» a b =>
      rw [form, form, alike_tagged_one (by decide)]
      exact hParts a (by simp [Node.parts]) b
        (hRight.2 b (by simp [Node.parts]))
  | unary op a b =>
      rw [form, form, alike_tagged_one (by decide), Node.alike,
        beq_self_eq_true, Bool.true_and]
      exact hParts a (by simp [Node.parts]) b
        (hRight.2 b (by simp [Node.parts]))
  | «variable» name other =>
      rw [form, form, alike_tagged_one (by decide)]
      rfl
  | index a b i j =>
      rw [form, form, alike_tagged_two (by decide), Node.alike,
        hParts a (by simp [Node.parts]) b
          (hRight.2 b (by simp [Node.parts])),
        hParts i (by simp [Node.parts]) j
          (hRight.2 j (by simp [Node.parts]))]
  | binary op a b i j =>
      rw [form, form, alike_tagged_two (by decide), Node.alike,
        beq_self_eq_true, Bool.true_and,
        hParts a (by simp [Node.parts]) b
          (hRight.2 b (by simp [Node.parts])),
        hParts i (by simp [Node.parts]) j
          (hRight.2 j (by simp [Node.parts]))]
  | «switch» as bs =>
      rw [form, form, alike_tagged_one (by decide)]
      exact alikeItems_caseForms hOp hResult hParts hRight.2
  | cond as bs =>
      rw [form, form, alike_tagged_one (by decide)]
      exact alikeItems_branchForms ⟨hLeft.1, hRight.1⟩ hParts hRight.2
  | literal embedded v w =>
      cases embedded with
      | true =>
          rw [form, form, alike_tagged_one (by decide)]
          exact (Bool.and_true _).symm
      | false => exact (Bool.and_true _).symm
  | calls name as bs =>
      rw [alike_form_calls hLeft.1 hRight.1 hParts hRight.2,
        Node.alike, beq_self_eq_true, Bool.true_and]
  | namedCalls name as bs =>
      rw [alike_form_namedCalls hLeft.1 hRight.1 hParts hRight.2,
        Node.alike, beq_self_eq_true, Bool.true_and]
  | callNamed name as bs =>
      exact (not_alike_form_calls hLeft.1 hRight.1 hRight.2).1
  | namedCall name as bs =>
      exact (not_alike_form_calls hRight.1 hLeft.1 hLeft.2).2

theorem told_of_parts
    (hOp : caseKey ≠ "op")
    (hResult : caseKey ≠ "result")
    {left : Node Unit}
    (hLeft : left.all isTelling = true)
    (hParts : ∀ part ∈ left.parts, Told caseKey part) :
    Told caseKey left := by
  intro right hRight
  have hFirst := ((Node.all_iff _).mp hLeft).1
  have hSecond := ((Node.all_iff _).mp hRight).1
  by_cases hKind : Kind.of left = Kind.of right
  · exact
      alike_form_of_kindred hOp hResult
        (kindred_of_kind_eq hFirst hSecond hKind) hLeft hRight hParts
  · have hForms :
        (form caseKey left).alike (form caseKey right) = false :=
      Bool.eq_false_iff.mpr fun hAlike =>
        hKind (kind_eq_of_alike_form hFirst hSecond hAlike)
    have hTrees : left.alike right = false :=
      Bool.eq_false_iff.mpr fun hAlike =>
        hKind (kind_eq_of_alike hAlike)
    rw [hForms, hTrees]

/- Wire forms are alike exactly if the trees are. -/
theorem alike_form
    (hOp : caseKey ≠ "op")
    (hResult : caseKey ≠ "result")
    {left right : Node Unit}
    (hLeft : left.all isTelling = true)
    (hRight : right.all isTelling = true) :
    (form caseKey left).alike (form caseKey right) =
      left.alike right := by
  have hTold : Told caseKey left := by
    induction left using Node.partsInduction with
    | hStep left ih =>
        refine told_of_parts hOp hResult hLeft fun part hPart => ?_
        exact ih part hPart (((Node.all_iff _).mp hLeft).2 part hPart)
  exact hTold right hRight

end Parts

------------------------------------------------------------
-- Scripts
------------------------------------------------------------

/- The names of operators that a call can be written with. -/
def operatorNames : List Text :=
  ["seq", "set", "get", "literal", "array", "index", "negative", "not",
    "equals", "sum", "product", "or", "and", "coalesce", "cond"]

/-
  Whether a call is not named like an operator and has no
  argument in the place of its name.
-/
def callsFreely : Node α → Bool
  | .call name _ _ => !operatorNames.contains name
  | .callNamed name arguments _ =>
    !operatorNames.contains name &&
      !(Fields.names arguments).contains "op"
  | _ => true

/- The other names of kinds are no identifiers. -/
theorem isFree_of_isName
    {name : Text}
    (hName : Format.isName name = true)
    (hFree : operatorNames.contains name = false) :
    isFree name = true := by
  have hOthers :
      ∀ kind ∈ Kind.fixed, ∀ own ∈ kind.op?,
        operatorNames.contains own = true ∨
          Format.isName own = false := by
    decide
  refine List.all_eq_true.mpr fun kind hMem => bne_iff_ne.mpr ?_
  intro hOp
  rcases hOthers kind hMem name (Option.mem_def.mpr hOp) with
    hOperator | hNot
  · rw [hOperator] at hFree
    cases hFree
  · rw [hNot] at hName
    cases hName

theorem names_normalArguments (arguments : List (Text × Node α)) :
    Fields.names (Node.normalArguments arguments) =
      Fields.names arguments := by
  induction arguments with
  | nil => rfl
  | cons argument rest ih =>
      rw [Fields.names, Fields.names] at ih
      rw [Node.normalArguments, Fields.names, Fields.names,
        List.map_cons, List.map_cons, ih]

theorem hasGuard_normalSteps (steps : List (Branch α)) :
    (Node.normalSteps steps).all hasGuard = true := by
  induction steps with
  | nil => rfl
  | cons step rest ih =>
      rcases step with ⟨guard, consequence⟩ | ⟨consequence⟩
      · exact ih
      · exact ih

theorem isTelling_callOf
    (name : Text)
    (arguments : List (Node Unit)) :
    isTelling (Node.callOf name arguments) = isFree name := by
  cases arguments with
  | nil => exact Bool.and_true _
  | cons first rest =>
      cases rest with
      | nil => exact Bool.and_true _
      | cons second rest =>
          rw [Node.callOf, isTelling]
          · simp
          · simp

theorem parts_callOf
    (name : Text)
    (arguments : List (Node Unit)) :
    (Node.callOf name arguments).parts = arguments := by
  cases arguments with
  | nil => rfl
  | cons first rest => cases rest <;> rfl

theorem map_snd_normalArguments (arguments : List (Text × Node α)) :
    (Node.normalArguments arguments).map Prod.snd =
      (arguments.map Prod.snd).map Node.normal := by
  induction arguments with
  | nil => rfl
  | cons argument rest ih =>
      rw [Node.normalArguments, List.map_cons, ih, List.map_cons,
        List.map_cons]

theorem parts_normalCases (cases : List (Case α)) :
    (Node.normalCases cases).flatMap Case.parts =
      (cases.flatMap Case.parts).map Node.normal := by
  induction cases with
  | nil => rfl
  | cons entry rest ih =>
      rcases entry with ⟨guard, result⟩
      rw [Node.normalCases, List.flatMap_cons, ih, List.flatMap_cons,
        List.map_append]
      rfl

theorem mem_parts_normalSteps
    {steps : List (Branch α)}
    {part : Node Unit}
    (hPart : part ∈ (Node.normalSteps steps).flatMap Branch.parts) :
    (∃ own ∈ steps.flatMap Branch.parts, part = own.normal) ∨
      part = .literal (.bool true) false () := by
  induction steps with
  | nil => cases hPart
  | cons step rest ih =>
      rcases step with ⟨guard, consequence⟩ | ⟨consequence⟩
      · rw [Node.normalSteps, List.flatMap_cons, List.mem_append] at hPart
        rw [List.flatMap_cons]
        rcases hPart with hPart | hPart
        · refine .inl ?_
          simp only [Branch.parts_test, List.mem_cons,
            List.not_mem_nil, or_false] at hPart
          rcases hPart with rfl | rfl
          · exact ⟨guard, by simp, rfl⟩
          · exact ⟨consequence, by simp, rfl⟩
        · rcases ih hPart with ⟨own, hOwn, hEqual⟩ | hTrue
          · exact .inl ⟨own, List.mem_append_right _ hOwn, hEqual⟩
          · exact .inr hTrue
      · rw [Node.normalSteps, List.flatMap_cons, List.mem_append] at hPart
        rw [List.flatMap_cons]
        rcases hPart with hPart | hPart
        · simp only [Branch.parts_test, List.mem_cons,
            List.not_mem_nil, or_false] at hPart
          rcases hPart with rfl | rfl
          · exact .inr rfl
          · exact .inl ⟨consequence, by simp, rfl⟩
        · rcases ih hPart with ⟨own, hOwn, hEqual⟩ | hTrue
          · exact .inl ⟨own, List.mem_append_right _ hOwn, hEqual⟩
          · exact .inr hTrue

/-
  The parts of a tree in normal form are its parts in normal
  form, and the guards that were put in.
-/
theorem mem_parts_normal
    {node : Node α}
    {part : Node Unit}
    (hPart : part ∈ node.normal.parts) :
    (∃ own ∈ node.parts, part = own.normal) ∨
      part = .literal (.bool true) false () := by
  have hMapped {nodes : List (Node α)}
      (hMem : part ∈ nodes.map Node.normal) :
      ∃ own ∈ nodes, part = own.normal := by
    rcases List.mem_map.mp hMem with ⟨own, hOwn, hEqual⟩
    exact ⟨own, hOwn, hEqual.symm⟩
  cases node with
  | sequence | array | variadic =>
      rw [Node.normal, Node.parts, Node.normalAll_eq_map] at hPart
      exact .inl (hMapped hPart)
  | call name arguments mark =>
      rw [Node.normal, parts_callOf, Node.normalAll_eq_map] at hPart
      exact .inl (hMapped hPart)
  | callNamed name arguments mark =>
      rw [Node.normal, Node.parts, map_snd_normalArguments] at hPart
      exact .inl (hMapped hPart)
  | «switch» cases mark =>
      rw [Node.normal, Node.parts, parts_normalCases] at hPart
      exact .inl (hMapped hPart)
  | cond steps mark => exact mem_parts_normalSteps hPart
  | assign name value mark => exact .inl (hMapped hPart)
  | «return» value mark => exact .inl (hMapped hPart)
  | unary op operand mark => exact .inl (hMapped hPart)
  | index base position mark => exact .inl (hMapped hPart)
  | binary op left right mark => exact .inl (hMapped hPart)
  | «variable» | literal | fragment => cases hPart

/- A script whose calls are named freely tells its kinds in normal form. -/
theorem isTelling_normal
    {named : Bool}
    {node : Node α}
    (hNode : node.isStatement named = true)
    (hFree : callsFreely node = true) :
    isTelling node.normal = true := by
  cases node with
  | literal value embedded mark =>
      cases embedded with
      | true => rfl
      | false =>
          simp only [Node.isStatement, Node.isShaped,
            Bool.and_eq_true] at hNode
          exact hNode.2
  | call name arguments mark =>
      simp only [Node.isStatement, Node.isShaped,
        Bool.and_eq_true] at hNode
      have hName :=
        isFree_of_isName hNode.1.1 (by simpa [callsFreely] using hFree)
      rw [Node.normal, isTelling_callOf, hName]
  | callNamed name arguments mark =>
      simp only [Node.isStatement, Node.isShaped,
        Bool.and_eq_true] at hNode
      rw [callsFreely, Bool.and_eq_true] at hFree
      have hName :=
        isFree_of_isName hNode.1.1 (by simpa using hFree.1)
      rw [Node.normal, isTelling, names_normalArguments, hName, hFree.2]
      rfl
  | cond steps mark => exact hasGuard_normalSteps steps
  | fragment part => cases hNode
  | _ => rfl

theorem all_isTelling_normal
    {named : Bool}
    {node : Node α}
    (hNode : node.isStatement named = true)
    (hFree : node.all callsFreely = true) :
    node.normal.all isTelling = true := by
  induction node using Node.partsInduction with
  | hStep node ih =>
      rw [Node.all_iff] at hFree ⊢
      refine ⟨isTelling_normal hNode hFree.1, fun part hPart => ?_⟩
      rcases mem_parts_normal hPart with ⟨own, hOwn, rfl⟩ | rfl
      · exact ih own hOwn (Node.isStatement_of_mem_parts hNode hOwn)
          (hFree.2 own hOwn)
      · rfl

/-
  No script is lost on the wire. Two scripts whose calls are
  named freely have wire forms wherever there is room for their
  levels. The forms are the same JSON value but for the order
  of fields exactly if the scripts are the same but for their
  spans, the order of named arguments and of embedded fields,
  the name of a single argument, and a true guard in place of
  none.
-/
theorem encode_alike_iff
    {strict strict' : Bool}
    {source source' : Text}
    {tree tree' : Node Span}
    (hParse : parse strict source = .ok tree)
    (hParse' : parse strict' source' = .ok tree')
    (hFree : tree.all callsFreely = true)
    (hFree' : tree'.all callsFreely = true)
    {caseKey : Text}
    (hOp : caseKey ≠ "op")
    (hResult : caseKey ≠ "result") :
    ∃ wire wire',
      (∀ [Room],
        encode caseKey tree =
          reached Room.wireLevels (nesting tree) wire) ∧
        (∀ [Room],
          encode caseKey tree' =
            reached Room.wireLevels (nesting tree') wire') ∧
        (wire.alike wire' = true ↔
          tree.normal.alike tree'.normal = true) := by
  have hNode := isStatement_of_parse hParse
  have hNode' := isStatement_of_parse hParse'
  refine ⟨_, _, fun {_} => encode_eq caseKey hNode,
    fun {_} => encode_eq caseKey hNode', ?_⟩
  rw [← form_normal caseKey tree, ← form_normal caseKey tree',
    alike_form hOp hResult (all_isTelling_normal hNode hFree)
      (all_isTelling_normal hNode' hFree')]

/- Two ways to write an if-chain with calls give the same JSON value. -/
theorem encode_alike_iff_chain :
    ∃ (tree tree' : Node Span) (wire wire' : Value),
      parse true
          "if (a) \x7b f(1); \x7d else \x7b g(b=2, c=@\x7bk: 1, l: 2.5\x7d); \x7d;" =
            .ok tree ∧
        parse true
          "if (a) \x7b f(value=1); \x7d else if (true) \x7b g(c=@\x7bl: 2.5, k: 1\x7d, b=2); \x7d;" =
            .ok tree' ∧
        encode defaultCaseKey tree = .ok wire ∧
        encode defaultCaseKey tree' = .ok wire' ∧
        wire.alike wire' = true := by
  have hFacts :
      (do
        let tree ← (parse true
          "if (a) \x7b f(1); \x7d else \x7b g(b=2, c=@\x7bk: 1, l: 2.5\x7d); \x7d;").toOption
        let tree' ← (parse true
          "if (a) \x7b f(value=1); \x7d else if (true) \x7b g(c=@\x7bl: 2.5, k: 1\x7d, b=2); \x7d;").toOption
        return (tree.all callsFreely, tree'.all callsFreely,
          tree.normal.alike tree'.normal, nesting tree,
          nesting tree')) =
        some (true, true, true, 5, 5) := by
    decide +kernel
  cases hParse :
      parse true
        "if (a) \x7b f(1); \x7d else \x7b g(b=2, c=@\x7bk: 1, l: 2.5\x7d); \x7d;" with
  | error error =>
      rw [hParse] at hFacts
      cases hFacts
  | ok tree =>
      cases hParse' :
          parse true
            "if (a) \x7b f(value=1); \x7d else if (true) \x7b g(c=@\x7bl: 2.5, k: 1\x7d, b=2); \x7d;" with
      | error error =>
          rw [hParse, hParse'] at hFacts
          cases hFacts
      | ok tree' =>
          rw [hParse, hParse'] at hFacts
          simp only [Except.toOption, Option.pure_def,
            Option.bind_eq_bind, Option.bind_some,
            Option.some.injEq, Prod.mk.injEq] at hFacts
          rcases encode_alike_iff hParse hParse' hFacts.1 hFacts.2.1
              (show defaultCaseKey ≠ "op" by decide) (by decide) with
            ⟨wire, wire', hWire, hWire', hAlike⟩
          rcases hFacts.2.2 with ⟨hSame, hNesting, hNesting'⟩
          refine ⟨tree, tree', wire, wire', rfl, rfl, ?_, ?_,
            hAlike.mpr hSame⟩
          · rw [hWire, hNesting]
            rfl
          · rw [hWire', hNesting']
            rfl

end Wire

end ExperimentScript
