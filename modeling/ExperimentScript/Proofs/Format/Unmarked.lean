import ExperimentScript.Proofs.Format.Plain

/-
  Notations do not depend on marks.

  A tree has the notation of the tree without its marks, and
  the notation of a shaped tree has no control characters
  other than line feeds. Both are kept by every step that
  puts a notation together.

  Key definitions include:
    * `ExperimentScript.Format.Matches`
    * `ExperimentScript.Format.IsSteady`

  Main declarations:
    * `ExperimentScript.Format.Matches.bind`
    * `ExperimentScript.Format.isSteady`
    * `ExperimentScript.Format.script_unmark`
    * `ExperimentScript.Format.isPlain_script`
-/

namespace ExperimentScript

namespace Format

open Text (IsPlain)

variable {α β γ : Type}
variable {options : Options}
variable {named : Bool}
variable {depth levels : Nat}

------------------------------------------------------------
-- Attempts
------------------------------------------------------------

/- Two attempts come to the same, and what they give is good. -/
def Matches
    (good : β → Prop)
    (first second : Except Failure β) : Prop :=
  first = second ∧ ∀ result, first = .ok result → good result

namespace Matches

variable {good : β → Prop}

theorem ok
    {result : β}
    (hGood : good result) :
    Matches good (.ok result) (.ok result) := by
  refine ⟨rfl, fun given hGiven => ?_⟩
  cases hGiven
  exact hGood

theorem bind
    {between : γ → Prop}
    {first second : Except Failure γ}
    {next further : γ → Except Failure β}
    (hSteps : Matches between first second)
    (hNext :
      ∀ result, between result →
        Matches good (next result) (further result)) :
    Matches good (first >>= next) (second >>= further) := by
  rcases hSteps with ⟨rfl, hBetween⟩
  cases first with
  | error failure => exact ⟨rfl, fun given hGiven => by cases hGiven⟩
  | ok result => exact hNext result (hBetween result rfl)

/- What is made of a good result at the end. -/
theorem map
    {between : γ → Prop}
    {first second : Except Failure γ}
    (hSteps : Matches between first second)
    {make : γ → β}
    (hMake : ∀ result, between result → good (make result)) :
    Matches good
      (do return make (← first))
      (do return make (← second)) :=
  hSteps.bind fun result hResult => .ok (hMake result hResult)

end Matches

/- Margins are blanks. -/
theorem matches_margin [Room] :
    Matches IsPlain (options.margin depth) (options.margin depth) := by
  refine ⟨rfl, fun text hText => ?_⟩
  rw [Options.margin, Text.margin] at hText
  cases hCheck : Text.checkWidth (options.indent * depth) with
  | error error =>
      rw [hCheck] at hText
      cases hText
  | ok _ =>
      rw [hCheck] at hText
      cases hText
      intro c hMem
      rw [List.eq_of_mem_replicate hMem]
      exact .inr (by decide)

theorem isPlain_parens
    {text : Text}
    (hText : text.IsPlain)
    (needed : Bool) :
    IsPlain (parens needed text) := by
  unfold parens
  split
  · exact .append (.append (by decide) hText) (by decide)
  · exact hText

theorem isPlain_negated
    {text : Text}
    (hText : text.IsPlain) :
    IsPlain (negated text) := by
  cases text with
  | nil => decide
  | cons c rest =>
      rw [negated]
      split
      · exact .append (by decide) hText
      · exact .append (by decide) hText

theorem isPlain_consequence
    {text : Text}
    (hText : text.IsPlain)
    (node : Node α) :
    IsPlain (consequence node text) :=
  isPlain_parens hText _

------------------------------------------------------------
-- Nodes Without Marks
------------------------------------------------------------

theorem level_unmark (node : Node α) :
    level node.unmark = level node := by
  cases node with
  | unary op operand mark =>
      cases op with
      | negate => rfl
      | not =>
          cases operand with
          | binary op left right mark => cases op <;> rfl
          | _ => rfl
  | _ => rfl

theorem isVariadic_unmark
    (op : VariadicOp)
    (node : Node α) :
    isVariadic op node.unmark = isVariadic op node := by
  cases node <;> rfl

theorem consequence_unmark
    (node : Node α)
    (text : Text) :
    consequence node.unmark text = consequence node text := by
  cases node <;> rfl

------------------------------------------------------------
-- Lists Of Nodes
------------------------------------------------------------

/- All of some texts are plain. -/
def ArePlain (texts : List Text) : Prop :=
  ∀ text ∈ texts, IsPlain text

theorem arePlain_cons
    {first : Text}
    (hFirst : first.IsPlain)
    (rest : List Text)
    (hRest : ArePlain rest) :
    ArePlain (first :: rest) :=
  List.forall_mem_cons.mpr ⟨hFirst, hRest⟩

theorem arePlain_nil : ArePlain [] :=
  fun _ hMem => absurd hMem List.not_mem_nil

variable [Room]

/- A shaped node has the plain notation of the node without marks. -/
def IsSteady
    (options : Options)
    (named : Bool)
    (node : Node α) : Prop :=
  ∀ depth levels : Nat,
    node.isShaped named = true →
    Matches IsPlain (bare options depth levels node.unmark)
      (bare options depth levels node)

/- On no level neither has a notation. -/
theorem isSteady_of_succ
    {node : Node α}
    (hBelow :
      ∀ depth levels : Nat,
        node.isShaped named = true →
        Matches IsPlain (bare options depth (levels + 1) node.unmark)
          (bare options depth (levels + 1) node)) :
    IsSteady options named node := by
  intro depth levels hShaped
  cases levels with
  | zero =>
      rw [bare, bare]
      exact ⟨rfl, fun text hText => nomatch hText⟩
  | succ levels => exact hBelow depth levels hShaped

theorem matches_nodes
    {items : List (Node α)}
    (hSteady :
      Node.AllBelow α (sizeOf items) (IsSteady options named))
    (hShaped : Node.areShaped named items = true) :
    Matches ArePlain (nodes options depth levels (Node.unmarkAll items))
      (nodes options depth levels items) := by
  induction items with
  | nil => exact .ok arePlain_nil
  | cons node rest ih =>
      rw [Node.areShaped_cons, Bool.and_eq_true] at hShaped
      have hFirst := hSteady.head depth levels hShaped.1
      have hRest := ih hSteady.tail hShaped.2
      rw [Node.unmarkAll, nodes, nodes]
      exact hFirst.bind fun text hText =>
        hRest.map (arePlain_cons hText)

theorem matches_namedNodes
    {arguments : List (Text × Node α)}
    (hSteady :
      Node.AllBelow α (sizeOf arguments) (IsSteady options named))
    (hShaped : Node.haveShaped named arguments = true) :
    Matches ArePlain
      (namedNodes options depth levels (Node.unmarkArguments arguments))
      (namedNodes options depth levels arguments) := by
  induction arguments with
  | nil => exact .ok arePlain_nil
  | cons argument rest ih =>
      rcases argument with ⟨name, node⟩
      rw [Node.haveShaped, Bool.and_eq_true, Bool.and_eq_true]
        at hShaped
      have hName := isPlain_of_isName hShaped.1.1
      have hFirst :=
        hSteady node (by simp; omega) depth levels hShaped.1.2
      have hRest := ih hSteady.tail hShaped.2
      rw [Node.unmarkArguments, namedNodes, namedNodes]
      exact hFirst.bind fun text hText =>
        hRest.map
          (arePlain_cons (.append (.append hName (by decide)) hText))

theorem matches_furtherOperands
    {op : VariadicOp}
    {operands : List (Node α)}
    (hSteady :
      Node.AllBelow α (sizeOf operands) (IsSteady options named))
    (hShaped : Node.areShaped named operands = true) :
    Matches ArePlain
      (furtherOperands options depth levels op (Node.unmarkAll operands))
      (furtherOperands options depth levels op operands) := by
  have hSign : IsPlain (variadicSign op) := by
    cases op <;> decide
  induction operands with
  | nil => exact .ok arePlain_nil
  | cons node rest ih =>
      rw [Node.areShaped_cons, Bool.and_eq_true] at hShaped
      have hFirst := hSteady.head depth levels hShaped.1
      have hRest := ih hSteady.tail hShaped.2
      by_cases hNegated :
          ∃ operand mark, node = .unary .negate operand mark
      · rcases hNegated with ⟨operand, mark, rfl⟩
        have hInner :=
          hSteady operand (by simp; omega) depth (levels - 1) hShaped.1
        rw [Node.unmarkAll, Node.unmark, furtherOperands,
          furtherOperands, level_unmark]
        split
        · exact hInner.bind fun text hText =>
            hRest.map (arePlain_cons
              (.append (by decide) (isPlain_parens hText _)))
        · exact hFirst.bind fun text hText =>
            hRest.map (arePlain_cons
              (.append (.append hSign (by decide))
                (isPlain_parens hText _)))
      · have hOther :
            ∀ operand mark,
              node = .unary .negate operand mark → False :=
          fun operand mark hSame => hNegated ⟨operand, mark, hSame⟩
        have hOtherUnmarked :
            ∀ operand mark,
              node.unmark = .unary .negate operand mark → False := by
          intro operand mark hSame
          cases node <;> cases hSame
          exact hOther _ _ rfl
        rw [Node.unmarkAll, furtherOperands, furtherOperands,
          level_unmark]
        · exact hFirst.bind fun text hText =>
            hRest.map (arePlain_cons
              (.append (.append hSign (by decide))
                (isPlain_parens hText _)))
        · exact hOther
        · exact hOtherUnmarked

------------------------------------------------------------
-- Lines And Chains
------------------------------------------------------------

theorem matches_statements
    {body : List (Node α)}
    (hSteady :
      Node.AllBelow α (sizeOf body) (IsSteady options named))
    (hShaped : Node.areStatements named body = true) :
    Matches ArePlain
      (statements options depth levels (Node.unmarkAll body))
      (statements options depth levels body) := by
  induction body with
  | nil => exact .ok arePlain_nil
  | cons node rest ih =>
      rw [Node.areStatements_cons, Bool.and_eq_true] at hShaped
      have hRest := ih hSteady.tail hShaped.2
      by_cases hAssign :
          ∃ name value mark, node = .assign name value mark
      · rcases hAssign with ⟨name, value, mark, rfl⟩
        have hNode := hShaped.1
        rw [Node.isStatement, Bool.and_eq_true] at hNode
        have hName := isPlain_of_isName hNode.1
        have hValue :=
          hSteady value (by simp; omega) depth (levels - 1) hNode.2
        rw [Node.unmarkAll, Node.unmark, statements, statements]
        exact matches_margin.bind fun margin hMargin =>
          hValue.bind fun text hText =>
            hRest.map (arePlain_cons
              (.append (.append (.append (.append hMargin hName)
                (by decide)) hText) (by decide)))
      · have hPlain :
            ∀ name value mark, node = .assign name value mark →
              False :=
          fun name value mark hSame =>
            hAssign ⟨name, value, mark, hSame⟩
        have hPlainUnmarked :
            ∀ name value mark,
              node.unmark = .assign name value mark → False := by
          intro name value mark hSame
          cases node <;> cases hSame
          exact hPlain _ _ _ rfl
        rw [Node.isStatement_eq_isShaped hPlain] at hShaped
        have hFirst := hSteady.head depth levels hShaped.1
        rw [Node.unmarkAll, statements, statements]
        · exact matches_margin.bind fun margin hMargin =>
            hFirst.bind fun text hText =>
              hRest.map (arePlain_cons
                (.append (.append hMargin hText) (by decide)))
        · exact hPlain
        · exact hPlainUnmarked

theorem matches_cases
    {found : List (Case α)}
    (hSteady :
      Node.AllBelow α (sizeOf found) (IsSteady options named))
    (hShaped : Node.areCases named found = true) :
    Matches ArePlain (cases options depth levels (Node.unmarkCases found))
      (cases options depth levels found) := by
  induction found with
  | nil => exact .ok arePlain_nil
  | cons first rest ih =>
      rcases first with ⟨guard, result⟩
      simp only [Node.areCases, Bool.and_eq_true] at hShaped
      rcases hShaped with ⟨⟨hGuardShaped, hResultShaped⟩, hCases⟩
      have hGuard :=
        hSteady guard (by simp; omega) depth levels hGuardShaped
      have hResult :=
        hSteady result (by simp; omega) depth levels hResultShaped
      have hRest := ih hSteady.tail hCases
      rw [Node.unmarkCases, cases, cases]
      exact matches_margin.bind fun margin hMargin =>
        hGuard.bind fun guardText hGuardText =>
          hResult.bind fun text hText =>
            hRest.map (arePlain_cons
              (.append (.append (.append (.append hMargin
                (isPlain_parens hGuardText _)) (by decide)) hText)
                  (by decide)))

theorem matches_branches
    {isFirst : Bool}
    {steps : List (Branch α)}
    (hSteady :
      Node.AllBelow α (sizeOf steps) (IsSteady options named))
    (hShaped : Node.areSteps named isFirst steps = true) :
    Matches ArePlain
      (branches options depth levels isFirst (Node.unmarkSteps steps))
      (branches options depth levels isFirst steps) := by
  induction steps generalizing isFirst with
  | nil => exact .ok arePlain_nil
  | cons step rest ih =>
      cases step with
      | test guard node =>
          rw [Node.areSteps, Bool.and_eq_true, Bool.and_eq_true]
            at hShaped
          rcases hShaped with
            ⟨⟨hGuardShaped, hNodeShaped⟩, hSteps⟩
          have hGuard :=
            hSteady guard (by simp; omega) depth levels hGuardShaped
          have hNode :=
            hSteady node (by simp; omega) depth levels hNodeShaped
          have hRest := ih hSteady.tail hSteps
          have hWord :
              IsPlain (if isFirst then "if (" else "else if (" : Text) := by
            cases isFirst <;> decide
          rw [Node.unmarkSteps, branches, branches]
          simp only [consequence_unmark]
          exact hNode.bind fun text hText =>
            hGuard.bind fun guardText hGuardText =>
              hRest.map (arePlain_cons
                (.append (.append (.append hWord hGuardText)
                  (by decide)) (isPlain_consequence hText node)))
      | otherwise node =>
          simp only [Node.areSteps, Bool.and_eq_true,
            List.isEmpty_iff] at hShaped
          rcases hShaped with ⟨⟨_, rfl⟩, hNodeShaped⟩
          have hNode :=
            hSteady node (by simp; omega) depth levels hNodeShaped
          rw [Node.unmarkSteps, branches, branches]
          simp only [consequence_unmark]
          exact hNode.map fun text hText =>
            arePlain_cons
              (.append (by decide) (isPlain_consequence hText node)) []
                arePlain_nil

------------------------------------------------------------
-- All Shaped Trees
------------------------------------------------------------

theorem isSteady_unary
    {op : UnaryOp}
    {operand : Node α}
    {mark : α}
    (hSteady :
      Node.AllBelow α (sizeOf (Node.unary op operand mark))
        (IsSteady options named)) :
    IsSteady options named (.unary op operand mark) := by
  refine isSteady_of_succ fun depth levels hShaped => ?_
  have hSize :
      sizeOf operand < sizeOf (Node.unary op operand mark) := by
    rw [Node.unary.sizeOf_spec]
    omega
  have hOperand := hSteady operand hSize depth levels hShaped
  cases op with
  | negate =>
      rw [Node.unmark, bare, bare, level_unmark]
      exact hOperand.map fun text hText =>
        isPlain_negated (isPlain_parens hText _)
  | not =>
      by_cases hEquals :
          ∃ left right inner,
            operand = .binary .equals left right inner
      · rcases hEquals with ⟨left, right, inner, rfl⟩
        simp only [Node.isShaped, Bool.and_eq_true] at hShaped
        have hLeft :=
          hSteady left (by simp; omega) depth (levels - 1) hShaped.1
        have hRight :=
          hSteady right (by simp; omega) depth (levels - 1) hShaped.2
        rw [Node.unmark, Node.unmark, bare, bare, level_unmark,
          level_unmark]
        exact hLeft.bind fun leftText hLeftText =>
          hRight.map fun text hText =>
            .append (.append (isPlain_parens hLeftText _) (by decide))
              (isPlain_parens hText _)
      · have hOther :
            ∀ left right inner,
              operand = .binary .equals left right inner → False :=
          fun left right inner hSame =>
            hEquals ⟨left, right, inner, hSame⟩
        have hOtherUnmarked :
            ∀ left right inner,
              operand.unmark = .binary .equals left right inner →
                False := by
          intro left right inner hSame
          cases operand <;> cases hSame
          exact hOther _ _ _ rfl
        rw [Node.unmark, bare, bare, level_unmark]
        · exact hOperand.map fun text hText =>
            .append (by decide) (isPlain_parens hText _)
        · exact hOther
        · exact hOtherUnmarked

theorem isSteady_variadic
    {op : VariadicOp}
    {operands : List (Node α)}
    {mark : α}
    (hSteady :
      Node.AllBelow α (sizeOf (Node.variadic op operands mark))
        (IsSteady options named)) :
    IsSteady options named (.variadic op operands mark) := by
  refine isSteady_of_succ fun depth levels hShaped => ?_
  rw [Node.isShaped, Bool.and_eq_true] at hShaped
  cases operands with
  | nil => cases hShaped.1
  | cons first rest =>
      have hParts :
          Node.AllBelow α (sizeOf (first :: rest))
            (IsSteady options named) :=
        hSteady.mono (by simp)
      rw [Node.areShaped_cons, Bool.and_eq_true] at hShaped
      have hFirst := hParts.head depth levels hShaped.2.1
      have hRest :
          Matches ArePlain
            (furtherOperands options depth levels op (Node.unmarkAll rest))
            (furtherOperands options depth levels op rest) :=
        matches_furtherOperands hParts.tail hShaped.2.2
      rw [Node.unmark, Node.unmarkAll, bare, bare, level_unmark,
        isVariadic_unmark]
      exact hFirst.bind fun text hText =>
        hRest.map fun texts hTexts =>
          .join (by decide)
            (arePlain_cons (isPlain_parens hText _) texts hTexts)

/- Lines between braces, the last on a line of its own. -/
theorem Matches.braces
    {first second : Except Failure (List Text)}
    (hLines : Matches ArePlain first second)
    {opening : Text}
    (hOpening : opening.IsPlain) :
    Matches IsPlain
      (do
        let lines ← first
        let margin ← options.margin depth
        return opening ++ Text.join "\n" lines ++ "\n" ++ margin ++
          "\x7d")
      (do
        let lines ← second
        let margin ← options.margin depth
        return opening ++ Text.join "\n" lines ++ "\n" ++ margin ++
          "\x7d") :=
  hLines.bind fun _ hTexts =>
    matches_margin.map fun _ hMargin =>
      .append (.append (.append (.append hOpening
        (.join (by decide) hTexts)) (by decide)) hMargin) (by decide)

/- A shaped tree has the notation of the tree without marks. -/
theorem isSteady (node : Node α) :
    IsSteady options named node := by
  have hSteady :
      Node.AllBelow α (sizeOf node) (IsSteady options named) :=
    fun smaller _ => isSteady smaller
  cases node with
  | sequence body mark =>
      refine isSteady_of_succ fun depth levels hShaped => ?_
      have hLines :
          Matches ArePlain
            (statements options (depth + 1) levels (Node.unmarkAll body))
            (statements options (depth + 1) levels body) :=
        matches_statements (hSteady.mono (by simp)) hShaped
      cases body with
      | nil => exact .ok (by decide)
      | cons first rest =>
          rw [Node.unmark, Node.unmarkAll, bare, bare]
          exact hLines.braces (by decide)
  | assign name value mark =>
      intro depth levels hShaped
      cases hShaped
  | «return» value mark =>
      refine isSteady_of_succ fun depth levels hShaped => ?_
      have hValue := hSteady value (by simp) depth levels hShaped
      rw [Node.unmark, bare, bare]
      exact hValue.map fun text hText => .append (by decide) hText
  | «variable» name mark =>
      refine isSteady_of_succ fun depth levels hShaped => ?_
      exact .ok (isPlain_of_isName hShaped)
  | literal value isEmbedded mark =>
      refine isSteady_of_succ fun depth levels hShaped => ?_
      cases isEmbedded with
      | true =>
          rw [Node.isShaped, Bool.and_eq_true] at hShaped
          rw [Node.unmark, bare, bare]
          have hValue :
              Matches IsPlain (embedded options.strict levels value)
                (embedded options.strict levels value) :=
            ⟨rfl, fun text hText =>
              isPlain_embedded options.strict value hShaped.1 hText⟩
          exact hValue.map fun text hText => .append (by decide) hText
      | false =>
          rw [Node.isShaped, Bool.and_eq_true] at hShaped
          exact ⟨rfl, fun text hText =>
            isPlain_constant hShaped.1 hText⟩
  | array items mark =>
      refine isSteady_of_succ fun depth levels hShaped => ?_
      have hItems :
          Matches ArePlain
            (nodes options depth levels (Node.unmarkAll items))
            (nodes options depth levels items) :=
        matches_nodes (hSteady.mono (by simp)) hShaped
      rw [Node.unmark, bare, bare]
      exact hItems.map fun texts hTexts =>
        .append (.append (by decide) (.join (by decide) hTexts))
          (by decide)
  | index base position mark =>
      refine isSteady_of_succ fun depth levels hShaped => ?_
      rw [Node.isShaped, Bool.and_eq_true] at hShaped
      have hSize :
          sizeOf base < sizeOf (Node.index base position mark) ∧
            sizeOf position <
              sizeOf (Node.index base position mark) := by
        rw [Node.index.sizeOf_spec]
        omega
      have hBase := hSteady base hSize.1 depth levels hShaped.1
      have hPosition := hSteady position hSize.2 depth levels hShaped.2
      rw [Node.unmark, bare, bare, level_unmark]
      exact hBase.bind fun baseText hBaseText =>
        hPosition.map fun text hText =>
          .append (.append (.append (isPlain_parens hBaseText _)
            (by decide)) hText) (by decide)
  | call name arguments mark =>
      refine isSteady_of_succ fun depth levels hShaped => ?_
      simp only [Node.isShaped, Bool.and_eq_true] at hShaped
      have hArguments :
          Matches ArePlain
            (nodes options depth levels (Node.unmarkAll arguments))
            (nodes options depth levels arguments) :=
        matches_nodes (hSteady.mono (by simp)) hShaped.2
      rw [Node.unmark, bare, bare]
      exact hArguments.map fun texts hTexts =>
        .append (.append (.append (isPlain_of_isName hShaped.1.1)
          (by decide)) (.join (by decide) hTexts)) (by decide)
  | callNamed name arguments mark =>
      refine isSteady_of_succ fun depth levels hShaped => ?_
      simp only [Node.isShaped, Bool.and_eq_true] at hShaped
      have hArguments :
          Matches ArePlain
            (namedNodes options depth levels
              (Node.unmarkArguments arguments))
            (namedNodes options depth levels arguments) :=
        matches_namedNodes (hSteady.mono (by simp)) hShaped.2
      rw [Node.unmark, bare, bare]
      exact hArguments.map fun texts hTexts =>
        .append (.append (.append (isPlain_of_isName hShaped.1.1)
          (by decide)) (.join (by decide) hTexts)) (by decide)
  | unary op operand mark => exact isSteady_unary hSteady
  | binary op left right mark =>
      refine isSteady_of_succ fun depth levels hShaped => ?_
      rw [Node.isShaped, Bool.and_eq_true] at hShaped
      have hSize :
          sizeOf left < sizeOf (Node.binary op left right mark) ∧
            sizeOf right <
              sizeOf (Node.binary op left right mark) := by
        rw [Node.binary.sizeOf_spec]
        omega
      have hLeft := hSteady left hSize.1 depth levels hShaped.1
      have hRight := hSteady right hSize.2 depth levels hShaped.2
      have hSign : IsPlain (binarySign op) := by
        cases op <;> decide
      rw [Node.unmark, bare, bare, level_unmark, level_unmark]
      exact hLeft.bind fun leftText hLeftText =>
        hRight.map fun text hText =>
          .append (.append (.append (.append
            (isPlain_parens hLeftText _) (by decide)) hSign)
              (by decide)) (isPlain_parens hText _)
  | variadic op operands mark => exact isSteady_variadic hSteady
  | «switch» found mark =>
      refine isSteady_of_succ fun depth levels hShaped => ?_
      have hLines :
          Matches ArePlain
            (cases options (depth + 1) levels (Node.unmarkCases found))
            (cases options (depth + 1) levels found) :=
        matches_cases (hSteady.mono (by simp)) hShaped
      cases found with
      | nil => exact .ok (by decide)
      | cons first rest =>
          rcases first with ⟨guard, result⟩
          rw [Node.unmark, Node.unmarkCases, bare, bare]
          exact hLines.braces (by decide)
  | cond steps mark =>
      refine isSteady_of_succ fun depth levels hShaped => ?_
      have hSteps :
          Matches ArePlain
            (branches options depth levels true (Node.unmarkSteps steps))
            (branches options depth levels true steps) :=
        matches_branches (hSteady.mono (by simp)) hShaped
      rw [Node.unmark, bare, bare]
      exact hSteps.map fun texts hTexts => .join (by decide) hTexts
  | fragment part =>
      intro depth levels hShaped
      cases hShaped
termination_by sizeOf node

------------------------------------------------------------
-- Scripts
------------------------------------------------------------

theorem matches_script
    {tree : Node α}
    (hScript : tree.isScript named = true) :
    Matches IsPlain (script options tree.unmark)
      (script options tree) := by
  cases tree with
  | sequence body mark =>
      have hLines :
          Matches ArePlain
            (statements options 0 Room.formatLevels (Node.unmarkAll body))
            (statements options 0 Room.formatLevels body) :=
        matches_statements (fun node _ => isSteady node) hScript
      rw [Node.unmark, script, script]
      refine hLines.bind fun lines hTexts => ?_
      cases lines with
      | nil => exact .ok .nil
      | cons line lines =>
          exact .ok (.append (.join (by decide) hTexts) (by decide))
  | _ => cases hScript

/- The canonical text of a script does not depend on its marks. -/
theorem script_unmark
    {tree : Node α}
    (hScript : tree.isScript named = true) :
    script options tree.unmark = script options tree :=
  (matches_script hScript).1

/- It has no control characters other than line feeds. -/
theorem isPlain_script
    {tree : Node α}
    (hScript : tree.isScript named = true)
    {text : Text}
    (hText : script options tree = .ok text) :
    text.IsPlain :=
  (matches_script hScript).2 text
    ((script_unmark hScript).trans hText)

end Format

end ExperimentScript
