import ExperimentScript.Proofs.Format.Layout

/-
  The notation of shaped trees.

  What is written of a shaped tree is read as the tree. The
  proof is by the size of trees: a list function of the
  notation writes its list for the parts of a node, if what
  is written of every smaller node is read as it.

  Key definitions include:
    * `ExperimentScript.Format.open?`
    * `ExperimentScript.Format.IsReadable`

  Main declarations:
    * `ExperimentScript.Format.isReadable`
    * `ExperimentScript.Format.body_of_statements`
-/

namespace ExperimentScript

namespace Format

variable {α : Type}
variable [Room]
variable {options : Options}
variable {named : Bool}
variable {depth levels : Nat}

------------------------------------------------------------
-- Readable Nodes
------------------------------------------------------------

/- The operator that a further operand would be added to. -/
def open? : Node α → Option VariadicOp
  | .variadic op _ _ => some op
  | _ => none

omit [Room] in
theorem open?_ne_of_isVariadic
    {op : VariadicOp}
    {node : Node α}
    (hOther : isVariadic op node = false) :
    open? node ≠ some op := by
  cases node <;> simp_all [open?, isVariadic]

/- What is written of a node, if it is shaped, is read as it. -/
def IsReadable
    (options : Options)
    (named : Bool)
    (node : Node α) : Prop :=
  ∀ (depth : Nat) {levels : Nat} (text : Text),
    node.isShaped named = true →
    bare options depth levels node = .ok text →
    Written options.strict (level node) (open? node) text
      node.unmark

/- Only on some level is anything written of a node. -/
theorem isReadable_of_succ
    {node : Node α}
    (hBelow :
      ∀ (depth levels : Nat) (text : Text),
        node.isShaped named = true →
        bare options depth (levels + 1) node = .ok text →
        Written options.strict (level node) (open? node) text
          node.unmark) :
    IsReadable options named node := by
  intro depth levels text hShaped hText
  cases levels with
  | zero =>
      rw [bare] at hText
      cases hText
  | succ levels => exact hBelow depth levels text hShaped hText

/- An operand in its parentheses binds as tightly as asked for. -/
omit [Room] in
theorem exists_operand
    {bound : Nat}
    {node : Node α}
    {text : Text}
    (hWritten :
      Written options.strict (level node) (open? node) text
        node.unmark)
    (hBound : bound ≤ 9) :
    ∃ found found?,
      bound ≤ found ∧
        Written options.strict found found?
          (parens (level node < bound) text) node.unmark := by
  refine hWritten.parens (fun found _ => bound ≤ found) hBound ?_
  intro hBare
  simp only [decide_eq_false_iff_not] at hBare
  omega

------------------------------------------------------------
-- Lists Between Brackets
------------------------------------------------------------

/- What the nodes of a list are written as. -/
theorem exists_of_nodes_cons
    {node : Node α}
    {rest : List (Node α)}
    {texts : List Text}
    (hTexts : nodes options depth levels (node :: rest) = .ok texts) :
    ∃ text more,
      bare options depth levels node = .ok text ∧
        nodes options depth levels rest = .ok more ∧
        texts = text :: more := by
  rw [nodes] at hTexts
  rcases exists_of_bind_eq_ok hTexts with ⟨text, hText, hRest⟩
  rcases exists_of_bind_eq_ok hRest with ⟨more, hMore, hPure⟩
  cases hPure
  exact ⟨text, more, hText, hMore, rfl⟩

theorem listed_of_nodes
    {rest : List (Node α)}
    {node : Node α}
    {texts : List Text}
    (hReadable :
      Node.AllBelow α (sizeOf (node :: rest))
        (IsReadable options named))
    (hShaped : Node.areShaped named (node :: rest) = true)
    (hTexts : nodes options depth levels (node :: rest) = .ok texts) :
    Listed options.strict (Text.join ", " texts)
      (Node.unmarkAll (node :: rest)) := by
  induction rest generalizing node texts with
  | nil =>
      rcases exists_of_nodes_cons hTexts with
        ⟨text, more, hText, hMore, rfl⟩
      cases hMore
      simp only [Node.areShaped_cons, Bool.and_eq_true] at hShaped
      have hWritten :=
        hReadable.head depth text hShaped.1 hText
      rw [Text.join_singleton]
      exact .single hWritten
  | cons next rest ih =>
      rcases exists_of_nodes_cons hTexts with
        ⟨text, more, hText, hMore, rfl⟩
      rw [Node.areShaped_cons, Bool.and_eq_true] at hShaped
      have hWritten :=
        hReadable.head depth text hShaped.1 hText
      have hListed := ih hReadable.tail hShaped.2 hMore
      rcases exists_of_nodes_cons hMore with
        ⟨nextText, moreTexts, _, _, rfl⟩
      rw [Text.join_cons_cons, ← List.append_assoc]
      exact .cons hWritten hListed

/- What named arguments are written as. -/
theorem exists_of_namedNodes_cons
    {name : Text}
    {node : Node α}
    {rest : List (Text × Node α)}
    {texts : List Text}
    (hTexts :
      namedNodes options depth levels ((name, node) :: rest) =
        .ok texts) :
    ∃ text more,
      bare options depth levels node = .ok text ∧
        namedNodes options depth levels rest = .ok more ∧
        texts = (name ++ "=" ++ text) :: more := by
  rw [namedNodes] at hTexts
  rcases exists_of_bind_eq_ok hTexts with ⟨text, hText, hRest⟩
  rcases exists_of_bind_eq_ok hRest with ⟨more, hMore, hPure⟩
  cases hPure
  exact ⟨text, more, hText, hMore, rfl⟩

theorem named_of_namedNodes
    {rest : List (Text × Node α)}
    {name : Text}
    {node : Node α}
    {texts : List Text}
    (hReadable :
      Node.AllBelow α (sizeOf ((name, node) :: rest))
        (IsReadable options named))
    (hShaped :
      Node.haveShaped named ((name, node) :: rest) = true)
    (hTexts :
      namedNodes options depth levels ((name, node) :: rest) =
        .ok texts) :
    Named options.strict (Text.join ", " texts)
      (Node.unmarkArguments ((name, node) :: rest)) := by
  induction rest generalizing name node texts with
  | nil =>
      rcases exists_of_namedNodes_cons hTexts with
        ⟨text, more, hText, hMore, rfl⟩
      cases hMore
      simp only [Node.haveShaped, Bool.and_eq_true] at hShaped
      have hSize : sizeOf node < sizeOf [(name, node)] := by
        simp
        omega
      have hWritten :=
        hReadable node hSize depth text hShaped.1.2 hText
      rw [Text.join_singleton]
      exact .single hShaped.1.1 hWritten
  | cons next rest ih =>
      rcases next with ⟨key, value⟩
      rcases exists_of_namedNodes_cons hTexts with
        ⟨text, more, hText, hMore, rfl⟩
      rw [Node.haveShaped, Bool.and_eq_true, Bool.and_eq_true]
        at hShaped
      have hSize :
          sizeOf node <
            sizeOf ((name, node) :: (key, value) :: rest) := by
        simp
        omega
      have hWritten :=
        hReadable node hSize depth text hShaped.1.2 hText
      have hNamed := ih hReadable.tail hShaped.2 hMore
      rcases exists_of_namedNodes_cons hMore with
        ⟨nextText, moreTexts, _, _, rfl⟩
      rw [Text.join_cons_cons, ← List.append_assoc]
      exact .cons hShaped.1.1 hWritten hNamed

------------------------------------------------------------
-- Further Operands
------------------------------------------------------------

/-
  What further operands are written as. The first one stands
  after its sign, without its own sign if it is subtracted.
-/
theorem exists_of_furtherOperands_cons
    {op : VariadicOp}
    {node : Node α}
    {rest : List (Node α)}
    {texts : List Text}
    (hTexts :
      furtherOperands options depth levels op (node :: rest) =
        .ok texts) :
    ∃ (kind : TokenKind) (right : Node α) (below : Nat)
      (text : Text) (more : List Text),
      kind.variadic? = some op ∧
        Phrase.added kind right.unmark = node.unmark ∧
        sizeOf right ≤ sizeOf node ∧
        right.isShaped named = node.isShaped named ∧
        bare options depth below right = .ok text ∧
        furtherOperands options depth levels op rest = .ok more ∧
        texts =
          (kind.written ++ " " ++
            parens (level right < variadicLevel op + 1) text) ::
              more := by
  have hSign : (Written.variadicKind op).written = variadicSign op := by
    cases op <;> rfl
  have hKind : (Written.variadicKind op).variadic? = some op := by
    cases op <;> rfl
  have hPlain :
      ∀ right : Node Unit,
        Phrase.added (Written.variadicKind op) right = right := by
    intro right
    cases op <;> rfl
  by_cases hNegated :
      ∃ operand mark, node = .unary .negate operand mark
  · rcases hNegated with ⟨operand, mark, rfl⟩
    rw [furtherOperands] at hTexts
    by_cases hSum : op = .sum
    · subst hSum
      rw [if_pos rfl] at hTexts
      rcases exists_of_bind_eq_ok hTexts with
        ⟨text, hText, hFirst⟩
      rcases exists_of_bind_eq_ok hFirst with ⟨_, hSigned, hRest⟩
      rcases exists_of_bind_eq_ok hRest with ⟨more, hMore, hPure⟩
      cases hSigned
      cases hPure
      refine
        ⟨.minus, operand, _, text, more, rfl, rfl, ?_, rfl, hText,
          hMore, rfl⟩
      rw [Node.unary.sizeOf_spec]
      omega
    · rw [if_neg hSum] at hTexts
      rcases exists_of_bind_eq_ok hTexts with
        ⟨text, hText, hFirst⟩
      rcases exists_of_bind_eq_ok hFirst with ⟨_, hSigned, hRest⟩
      rcases exists_of_bind_eq_ok hRest with ⟨more, hMore, hPure⟩
      cases hSigned
      cases hPure
      refine
        ⟨_, .unary .negate operand mark, _, text, more, hKind,
          hPlain _, Nat.le_refl _, rfl, hText, hMore, ?_⟩
      rw [hSign]
      rfl
  · rw [furtherOperands] at hTexts
    · rcases exists_of_bind_eq_ok hTexts with ⟨text, hText, hRest⟩
      rcases exists_of_bind_eq_ok hRest with ⟨more, hMore, hPure⟩
      cases hPure
      refine
        ⟨_, node, _, text, more, hKind, hPlain _, Nat.le_refl _,
          rfl, hText, hMore, ?_⟩
      rw [hSign]
    · intro operand mark hNode
      exact hNegated ⟨operand, mark, hNode⟩

/- The first two of some texts are joined before the others. -/
omit [Room] in
theorem join_merge
    (separator text next : Text)
    (more : List Text) :
    Text.join separator (text :: next :: more) =
      Text.join separator ((text ++ separator ++ next) :: more) := by
  cases more with
  | nil => simp [Text.join_cons_cons, Text.join_singleton]
  | cons third more => simp [Text.join_cons_cons]

omit [Room] in
theorem variadicLevel_eq (op : VariadicOp) :
    variadicLevel op = op.level := by
  cases op <;> rfl

/- The first of some further operands is added to those before it. -/
theorem exists_grown
    {op : VariadicOp}
    {node : Node α}
    {rest : List (Node α)}
    {before : Text}
    {operands : List (Node Unit)}
    {texts : List Text}
    (hGrows : Written.Grows options.strict op before operands)
    (hReadable :
      Node.AllBelow α (sizeOf (node :: rest))
        (IsReadable options named))
    (hShaped : node.isShaped named = true)
    (hTexts :
      furtherOperands options depth levels op (node :: rest) =
        .ok texts) :
    ∃ text more,
      Written options.strict op.level (some op)
          (before ++ " " ++ text)
          (.variadic op (operands ++ [node.unmark]) ()) ∧
        furtherOperands options depth levels op rest = .ok more ∧
        texts = text :: more := by
  rcases exists_of_furtherOperands_cons hTexts with
    ⟨kind, right, below, text, more, hKind, hAdded, hSize,
      hRight, hText, hMore, rfl⟩
  rw [← hRight] at hShaped
  have hLess : sizeOf right < sizeOf (node :: rest) := by
    rw [List.cons.sizeOf_spec]
    omega
  have hWritten := hReadable right hLess depth text hShaped hText
  have hTop : op.level < 9 := by
    cases op <;> decide
  rw [variadicLevel_eq]
  rcases exists_operand hWritten hTop with
    ⟨found, found?, hFound, hOperand⟩
  have hWhole :=
    hGrows kind _ found found? _ hKind hOperand hFound
  rw [hAdded] at hWhole
  refine ⟨_, more, ?_, hMore, rfl⟩
  simp only [List.append_assoc] at hWhole ⊢
  exact hWhole

theorem written_of_furtherOperands
    {op : VariadicOp}
    {rest : List (Node α)}
    {before : Text}
    {operands : List (Node Unit)}
    {texts : List Text}
    (hWritten :
      Written options.strict op.level (some op) before
        (.variadic op operands ()))
    (hReadable :
      Node.AllBelow α (sizeOf rest) (IsReadable options named))
    (hShaped : Node.areShaped named rest = true)
    (hTexts :
      furtherOperands options depth levels op rest = .ok texts) :
    Written options.strict op.level (some op)
      (Text.join " " (before :: texts))
      (.variadic op (operands ++ Node.unmarkAll rest) ()) := by
  induction rest generalizing before operands texts with
  | nil =>
      cases hTexts
      rw [Text.join_singleton, Node.unmarkAll, List.append_nil]
      exact hWritten
  | cons node rest ih =>
      rw [Node.areShaped_cons, Bool.and_eq_true] at hShaped
      rcases
          exists_grown (Written.grows_further hWritten) hReadable
            hShaped.1 hTexts with
        ⟨text, more, hGrown, hMore, rfl⟩
      have hAll := ih hGrown hReadable.tail hShaped.2 hMore
      rw [List.append_assoc operands] at hAll
      rw [join_merge]
      exact hAll

------------------------------------------------------------
-- Lines
------------------------------------------------------------

/- A margin is made of blanks. -/
theorem exists_of_margin
    {margin : Text}
    (hMargin : options.margin depth = .ok margin) :
    ∃ width, margin = Text.blanks width := by
  unfold Options.margin Text.margin at hMargin
  cases hCheck : Text.checkWidth (options.indent * depth) with
  | error error =>
      rw [hCheck] at hMargin
      cases hMargin
  | ok _ =>
      rw [hCheck] at hMargin
      cases hMargin
      exact ⟨_, rfl⟩

/- What an assignment and the statements after it are written as. -/
theorem exists_of_statements_assign
    {name : Text}
    {value : Node α}
    {mark : α}
    {nodes : List (Node α)}
    {lines : List Text}
    (hLines :
      statements options depth levels
          (.assign name value mark :: nodes) =
        .ok lines) :
    ∃ width text more,
      bare options depth (levels - 1) value = .ok text ∧
        statements options depth levels nodes = .ok more ∧
        lines =
          (Text.blanks width ++ name ++ " = " ++ text ++ ";") ::
            more := by
  rw [statements] at hLines
  rcases exists_of_bind_eq_ok hLines with ⟨margin, hMargin, hBody⟩
  rcases exists_of_bind_eq_ok hBody with ⟨text, hText, hRest⟩
  rcases exists_of_bind_eq_ok hRest with ⟨more, hMore, hPure⟩
  cases hPure
  rcases exists_of_margin hMargin with ⟨width, rfl⟩
  exact ⟨width, text, more, hText, hMore, rfl⟩

/- What an expression and the statements after it are written as. -/
theorem exists_of_statements_cons
    {node : Node α}
    {nodes : List (Node α)}
    {lines : List Text}
    (hPlain :
      ∀ name value mark, node = .assign name value mark → False)
    (hLines :
      statements options depth levels (node :: nodes) = .ok lines) :
    ∃ width text more,
      bare options depth levels node = .ok text ∧
        statements options depth levels nodes = .ok more ∧
        lines = (Text.blanks width ++ text ++ ";") :: more := by
  rw [statements] at hLines
  · rcases exists_of_bind_eq_ok hLines with
      ⟨margin, hMargin, hBody⟩
    rcases exists_of_bind_eq_ok hBody with ⟨text, hText, hRest⟩
    rcases exists_of_bind_eq_ok hRest with ⟨more, hMore, hPure⟩
    cases hPure
    rcases exists_of_margin hMargin with ⟨width, rfl⟩
    exact ⟨width, text, more, hText, hMore, rfl⟩
  · exact hPlain

/- The lines of statements are read as the statements. -/
theorem body_of_statements
    {nodes : List (Node α)}
    {lines : List Text}
    (hReadable :
      Node.AllBelow α (sizeOf nodes) (IsReadable options named))
    (hShaped : Node.areStatements named nodes = true)
    (hLines : statements options depth levels nodes = .ok lines) :
    Body options.strict lines (Node.unmarkAll nodes) := by
  induction nodes generalizing lines with
  | nil =>
      cases hLines
      exact .nil
  | cons node nodes ih =>
      rw [Node.areStatements_cons, Bool.and_eq_true] at hShaped
      rcases hShaped with ⟨hNode, hNodes⟩
      by_cases hAssign :
          ∃ name value mark, node = .assign name value mark
      · rcases hAssign with ⟨name, value, mark, rfl⟩
        rcases exists_of_statements_assign hLines with
          ⟨width, text, more, hText, hMore, rfl⟩
        simp only [Node.isStatement, Bool.and_eq_true] at hNode
        have hSize :
            sizeOf value <
              sizeOf (Node.assign name value mark :: nodes) := by
          simp
          omega
        have hWritten :=
          hReadable value hSize depth text hNode.2 hText
        exact
          .cons_assign width hNode.1 hWritten
            (ih hReadable.tail hNodes hMore)
      · have hPlain :
            ∀ name value mark, node = .assign name value mark →
              False :=
          fun name value mark hSame =>
            hAssign ⟨name, value, mark, hSame⟩
        rcases exists_of_statements_cons hPlain hLines with
          ⟨width, text, more, hText, hMore, rfl⟩
        rw [Node.isStatement_eq_isShaped hPlain] at hNode
        have hWritten := hReadable.head depth text hNode hText
        exact .cons width hWritten (ih hReadable.tail hNodes hMore)

/- The lines of cases are read as the cases. -/
theorem caseBody_of_cases
    {found : List (Case α)}
    {lines : List Text}
    (hReadable :
      Node.AllBelow α (sizeOf found) (IsReadable options named))
    (hShaped : Node.areCases named found = true)
    (hLines : cases options depth levels found = .ok lines) :
    CaseBody options.strict lines (Node.unmarkCases found) := by
  induction found generalizing lines with
  | nil =>
      cases hLines
      exact .nil
  | cons first found ih =>
      rcases first with ⟨guard, result⟩
      simp only [Node.areCases, Bool.and_eq_true] at hShaped
      rcases hShaped with ⟨⟨hGuard, hResult⟩, hCases⟩
      rw [cases] at hLines
      rcases exists_of_bind_eq_ok hLines with
        ⟨margin, hMargin, hBody⟩
      rcases exists_of_bind_eq_ok hBody with
        ⟨guardText, hGuardText, hArrow⟩
      rcases exists_of_bind_eq_ok hArrow with ⟨text, hText, hRest⟩
      rcases exists_of_bind_eq_ok hRest with ⟨more, hMore, hPure⟩
      cases hPure
      rcases exists_of_margin hMargin with ⟨width, rfl⟩
      have hSize :
          sizeOf guard < sizeOf (Case.mk guard result :: found) ∧
            sizeOf result <
              sizeOf (Case.mk guard result :: found) := by
        simp
        omega
      have hFront :=
        hReadable guard hSize.1 depth guardText hGuard hGuardText
      have hWritten :=
        hReadable result hSize.2 depth text hResult hText
      exact
        .cons width hFront hWritten
          (ih hReadable.tail hCases hMore)

------------------------------------------------------------
-- If-Chains
------------------------------------------------------------

/- What a step with a guard and those after it are written as. -/
theorem exists_of_branches_test
    {isFirst : Bool}
    {guard node : Node α}
    {rest : List (Branch α)}
    {texts : List Text}
    (hTexts :
      branches options depth levels isFirst (.test guard node :: rest) =
        .ok texts) :
    ∃ text guardText more,
      bare options depth levels node = .ok text ∧
        bare options depth levels guard = .ok guardText ∧
        branches options depth levels false rest = .ok more ∧
        texts =
          ((if isFirst then "if (" else "else if (" : Text) ++
            guardText ++ ") " ++ consequence node text) ::
              more := by
  rw [branches] at hTexts
  rcases exists_of_bind_eq_ok hTexts with ⟨text, hText, hGuard⟩
  rcases exists_of_bind_eq_ok hGuard with
    ⟨guardText, hGuardText, hRest⟩
  rcases exists_of_bind_eq_ok hRest with ⟨more, hMore, hPure⟩
  cases hPure
  exact ⟨text, guardText, more, hText, hGuardText, hMore, rfl⟩

/- What is taken when no guard holds is written last. -/
theorem exists_of_branches_otherwise
    {isFirst : Bool}
    {node : Node α}
    {texts : List Text}
    (hTexts :
      branches options depth levels isFirst [.otherwise node] =
        .ok texts) :
    ∃ text,
      bare options depth levels node = .ok text ∧
        texts = ["else " ++ consequence node text] := by
  rw [branches] at hTexts
  rcases exists_of_bind_eq_ok hTexts with ⟨text, hText, hRest⟩
  cases hRest
  exact ⟨text, hText, rfl⟩

/- Further steps are a chain of their own after an `else`. -/
theorem exists_of_branches_false
    {guard node : Node α}
    {rest : List (Branch α)}
    {texts : List Text}
    (hTexts :
      branches options depth levels false (.test guard node :: rest) =
        .ok texts) :
    ∃ text more,
      branches options depth levels true (.test guard node :: rest) =
          .ok (text :: more) ∧
        texts = ("else " ++ text) :: more := by
  rcases exists_of_branches_test hTexts with
    ⟨text, guardText, more, hText, hGuard, hMore, rfl⟩
  refine
    ⟨"if (" ++ guardText ++ ") " ++ consequence node text, more,
      ?_, rfl⟩
  rw [branches, hText, hGuard]
  have hRest :
      branches options depth levels false rest = .ok more := hMore
  simp only [bind, Except.bind, hRest]
  rfl

omit [Room] in
theorem join_append
    (separator front text : Text)
    (more : List Text) :
    Text.join separator ((front ++ text) :: more) =
      front ++ Text.join separator (text :: more) := by
  cases more with
  | nil => simp [Text.join_singleton]
  | cons next more => simp [Text.join_cons_cons]

/- The first step of a chain, read before those after it. -/
theorem exists_decided
    {rest : List (Branch α)}
    {guard node : Node α}
    {texts : List Text}
    (hReadable :
      Node.AllBelow α (sizeOf (Branch.test guard node :: rest))
        (IsReadable options named))
    (hGuard : guard.isShaped named = true)
    (hNode : node.isShaped named = true)
    (hTexts :
      branches options depth levels true (.test guard node :: rest) =
        .ok texts) :
    ∃ front text more,
      Written options.strict (level guard) (open? guard) front
          guard.unmark ∧
        Decided options.strict text node.unmark ∧
        branches options depth levels false rest = .ok more ∧
        texts = ("if (" ++ front ++ ") " ++ text) :: more := by
  rcases exists_of_branches_test hTexts with
    ⟨text, front, more, hText, hFront, hMore, rfl⟩
  have hSize :
      sizeOf guard < sizeOf (Branch.test guard node :: rest) ∧
        sizeOf node < sizeOf (Branch.test guard node :: rest) := by
    simp
    omega
  have hWritten :=
    hReadable guard hSize.1 depth front hGuard hFront
  have hTaken := hReadable node hSize.2 depth text hNode hText
  exact
    ⟨front, _, more, hWritten, .consequence hTaken, hMore, rfl⟩

/- The steps of a chain are read as the chain. -/
theorem chained_of_branches
    {rest : List (Branch α)}
    {guard node : Node α}
    {texts : List Text}
    (hReadable :
      Node.AllBelow α (sizeOf (Branch.test guard node :: rest))
        (IsReadable options named))
    (hShaped :
      Node.areSteps named true (.test guard node :: rest) = true)
    (hTexts :
      branches options depth levels true (.test guard node :: rest) =
        .ok texts) :
    Chained options.strict (Text.join " " texts)
      (Node.unmarkSteps (.test guard node :: rest)) := by
  induction rest generalizing guard node texts with
  | nil =>
      simp only [Node.areSteps, Bool.and_eq_true] at hShaped
      rcases
          exists_decided hReadable hShaped.1.1 hShaped.1.2 hTexts with
        ⟨front, text, more, hFront, hDecided, hMore, rfl⟩
      cases hMore
      rw [Text.join_singleton]
      exact .single hFront hDecided
  | cons next rest ih =>
      rw [Node.areSteps, Bool.and_eq_true, Bool.and_eq_true]
        at hShaped
      rcases hShaped with ⟨⟨hGuard, hNode⟩, hSteps⟩
      rcases exists_decided hReadable hGuard hNode hTexts with
        ⟨front, text, more, hFront, hDecided, hMore, rfl⟩
      cases next with
      | test nextGuard nextNode =>
          rcases exists_of_branches_false hMore with
            ⟨nextText, others, hNext, rfl⟩
          have hChained := ih hReadable.tail hSteps hNext
          rw [Text.join_cons_cons, join_append]
          exact .cons hFront hDecided hChained
      | otherwise last =>
          simp only [Node.areSteps, Bool.not_false, Bool.true_and,
            Bool.and_eq_true, List.isEmpty_iff] at hSteps
          rcases hSteps with ⟨rfl, hLast⟩
          rcases exists_of_branches_otherwise hMore with
            ⟨lastText, hLastText, rfl⟩
          have hSize :
              sizeOf last <
                sizeOf
                  [Branch.test guard node, .otherwise last] := by
            simp
            omega
          have hEnd :=
            hReadable last hSize depth lastText hLast hLastText
          rw [Text.join_cons_cons, Text.join_singleton]
          exact .otherwise hFront hDecided (.consequence hEnd)

------------------------------------------------------------
-- All Shaped Trees
------------------------------------------------------------

theorem isReadable_sequence
    {body : List (Node α)}
    {mark : α}
    (hReadable :
      Node.AllBelow α (sizeOf (Node.sequence body mark))
        (IsReadable options named)) :
    IsReadable options named (.sequence body mark) := by
  refine isReadable_of_succ fun depth levels text hShaped hText => ?_
  cases body with
  | nil =>
      cases hText
      exact .block_nil
  | cons first rest =>
      rw [bare] at hText
      rcases exists_of_bind_eq_ok hText with
        ⟨lines, hLines, hBrace⟩
      rcases exists_of_bind_eq_ok hBrace with
        ⟨margin, hMargin, hPure⟩
      cases hPure
      rcases exists_of_margin hMargin with ⟨width, rfl⟩
      have hBody :=
        body_of_statements (hReadable.mono (by simp)) hShaped
          hLines
      exact .block width hBody

theorem isReadable_array
    {items : List (Node α)}
    {mark : α}
    (hReadable :
      Node.AllBelow α (sizeOf (Node.array items mark))
        (IsReadable options named)) :
    IsReadable options named (.array items mark) := by
  refine isReadable_of_succ fun depth levels text hShaped hText => ?_
  rw [bare] at hText
  rcases exists_of_bind_eq_ok hText with ⟨texts, hTexts, hPure⟩
  cases hPure
  cases items with
  | nil =>
      cases hTexts
      exact .array_nil
  | cons first rest =>
      exact
        .array
          (listed_of_nodes (hReadable.mono (by simp)) hShaped
            hTexts)

theorem isReadable_index
    {base position : Node α}
    {mark : α}
    (hReadable :
      Node.AllBelow α (sizeOf (Node.index base position mark))
        (IsReadable options named)) :
    IsReadable options named (.index base position mark) := by
  refine isReadable_of_succ fun depth levels text hShaped hText => ?_
  rw [bare] at hText
  rcases exists_of_bind_eq_ok hText with ⟨baseText, hBase, hRest⟩
  rcases exists_of_bind_eq_ok hRest with
    ⟨positionText, hPosition, hPure⟩
  cases hPure
  simp only [Node.isShaped, Bool.and_eq_true] at hShaped
  have hSize :
      sizeOf base < sizeOf (Node.index base position mark) ∧
        sizeOf position <
          sizeOf (Node.index base position mark) := by
    simp
    omega
  have hFront :=
    hReadable base hSize.1 depth baseText hShaped.1 hBase
  have hInner :=
    hReadable position hSize.2 depth positionText hShaped.2
      hPosition
  have hPost : postLevel ≤ 9 := by
    decide
  rcases exists_operand hFront hPost with
    ⟨found, found?, hFound, hOperand⟩
  exact hOperand.index hFound hInner

theorem isReadable_call
    {name : Text}
    {arguments : List (Node α)}
    {mark : α}
    (hReadable :
      Node.AllBelow α (sizeOf (Node.call name arguments mark))
        (IsReadable options named)) :
    IsReadable options named (.call name arguments mark) := by
  refine isReadable_of_succ fun depth levels text hShaped hText => ?_
  rw [bare] at hText
  rcases exists_of_bind_eq_ok hText with ⟨texts, hTexts, hPure⟩
  cases hPure
  simp only [Node.isShaped, Bool.and_eq_true] at hShaped
  rcases hShaped with ⟨⟨hName, hSome⟩, hArguments⟩
  cases arguments with
  | nil => cases hSome
  | cons first rest =>
      exact
        .call hName
          (listed_of_nodes (hReadable.mono (by simp)) hArguments
            hTexts)

/- Marks are no part of the names of arguments. -/
omit [Room] in
theorem names_unmarkArguments
    (arguments : List (Text × Node α)) :
    Fields.names (Node.unmarkArguments arguments) =
      Fields.names arguments := by
  induction arguments with
  | nil => rfl
  | cons argument arguments ih =>
      simp only [Fields.names] at ih ⊢
      rw [Node.unmarkArguments, List.map_cons, List.map_cons, ih]

theorem isReadable_callNamed
    {name : Text}
    {arguments : List (Text × Node α)}
    {mark : α}
    (hReadable :
      Node.AllBelow α (sizeOf (Node.callNamed name arguments mark))
        (IsReadable options named)) :
    IsReadable options named (.callNamed name arguments mark) := by
  refine isReadable_of_succ fun depth levels text hShaped hText => ?_
  rw [bare] at hText
  rcases exists_of_bind_eq_ok hText with ⟨texts, hTexts, hPure⟩
  cases hPure
  simp only [Node.isShaped, Bool.and_eq_true, Fields.areDistinct,
    decide_eq_true_eq] at hShaped
  rcases hShaped with ⟨⟨hName, hDistinct⟩, hArguments⟩
  cases arguments with
  | nil =>
      cases hTexts
      exact .callNamed_nil hName
  | cons first rest =>
      rcases first with ⟨key, value⟩
      have hNamed :=
        named_of_namedNodes (hReadable.mono (by simp)) hArguments
          hTexts
      rw [← names_unmarkArguments] at hDistinct
      exact .callNamed hName hDistinct hNamed

/- Two operands that are not equal. -/
theorem isReadable_notEqual
    {left right : Node α}
    {inner mark : α}
    (hReadable :
      Node.AllBelow α
        (sizeOf
          (Node.unary .not (.binary .equals left right inner)
            mark))
        (IsReadable options named)) :
    IsReadable options named
      (.unary .not (.binary .equals left right inner) mark) := by
  refine isReadable_of_succ fun depth levels text hShaped hText => ?_
  rw [bare] at hText
  rcases exists_of_bind_eq_ok hText with ⟨leftText, hLeft, hRest⟩
  rcases exists_of_bind_eq_ok hRest with
    ⟨rightText, hRight, hPure⟩
  cases hPure
  simp only [Node.isShaped, Bool.and_eq_true] at hShaped
  have hFirst :=
    hReadable left (by simp; omega) depth leftText hShaped.1 hLeft
  have hSecond :=
    hReadable right (by simp; omega) depth rightText hShaped.2
      hRight
  have hTop : binaryLevel .equals + 1 ≤ 9 := by
    decide
  rcases exists_operand hFirst (Nat.le_of_succ_le hTop) with
    ⟨found, found?, hFound, hFront⟩
  rcases exists_operand hSecond hTop with
    ⟨tighter, tighter?, hTighter, hOperand⟩
  exact .notEqual hFront hFound hOperand hTighter

theorem isReadable_unary
    {op : UnaryOp}
    {operand : Node α}
    {mark : α}
    (hReadable :
      Node.AllBelow α (sizeOf (Node.unary op operand mark))
        (IsReadable options named)) :
    IsReadable options named (.unary op operand mark) := by
  by_cases hEquals :
      ∃ left right inner,
        op = .not ∧ operand = .binary .equals left right inner
  · rcases hEquals with ⟨left, right, inner, rfl, rfl⟩
    exact isReadable_notEqual hReadable
  refine isReadable_of_succ fun depth levels text hShaped hText => ?_
  have hTop : unaryLevel ≤ 9 := by
    decide
  cases op with
  | negate =>
      rw [bare] at hText
      rcases exists_of_bind_eq_ok hText with
        ⟨operandText, hOperand, hPure⟩
      cases hPure
      have hWritten :=
        hReadable operand (by simp) depth operandText hShaped
          hOperand
      rcases exists_operand hWritten hTop with
        ⟨found, found?, hFound, hParens⟩
      exact hParens.negated hFound
  | not =>
      have hPlain :
          ∀ left right inner,
            operand = .binary .equals left right inner → False :=
        fun left right inner hSame =>
          hEquals ⟨left, right, inner, rfl, hSame⟩
      have hLevel : level (.unary .not operand mark) = 7 := by
        rw [level]
        · rfl
        · exact fun left right inner _ => hPlain left right inner
      rw [bare] at hText
      · rcases exists_of_bind_eq_ok hText with
          ⟨operandText, hOperand, hPure⟩
        cases hPure
        have hWritten :=
          hReadable operand (by simp) depth operandText hShaped
            hOperand
        rcases exists_operand hWritten hTop with
          ⟨found, found?, hFound, hParens⟩
        rw [hLevel]
        exact hParens.not hFound
      · exact hPlain

theorem isReadable_binary
    {op : BinaryOp}
    {left right : Node α}
    {mark : α}
    (hReadable :
      Node.AllBelow α (sizeOf (Node.binary op left right mark))
        (IsReadable options named)) :
    IsReadable options named (.binary op left right mark) := by
  refine isReadable_of_succ fun depth levels text hShaped hText => ?_
  rw [bare] at hText
  rcases exists_of_bind_eq_ok hText with ⟨leftText, hLeft, hRest⟩
  rcases exists_of_bind_eq_ok hRest with
    ⟨rightText, hRight, hPure⟩
  cases hPure
  simp only [Node.isShaped, Bool.and_eq_true] at hShaped
  have hSize :
      sizeOf left < sizeOf (Node.binary op left right mark) ∧
        sizeOf right < sizeOf (Node.binary op left right mark) := by
    simp
    omega
  have hFirst :=
    hReadable left hSize.1 depth leftText hShaped.1 hLeft
  have hSecond :=
    hReadable right hSize.2 depth rightText hShaped.2 hRight
  have hTop : binaryLevel op + 1 ≤ 9 := by
    cases op <;> decide
  rcases exists_operand hFirst (Nat.le_of_succ_le hTop) with
    ⟨found, found?, hFound, hFront⟩
  rcases exists_operand hSecond hTop with
    ⟨inner, inner?, hInner, hOperand⟩
  exact .binary op hFront hFound hOperand hInner

/- A first operand is not written as part of the operator's own. -/
omit [Room] in
theorem exists_first
    {node : Node α}
    {text : Text}
    (op : VariadicOp)
    (hWritten :
      Written options.strict (level node) (open? node) text
        node.unmark) :
    ∃ found found?,
      (op.level ≤ found ∧ found? ≠ some op) ∧
        Written options.strict found found?
          (parens
            (isVariadic op node || level node < variadicLevel op)
            text)
          node.unmark := by
  refine
    hWritten.parens
      (fun found found? => op.level ≤ found ∧ found? ≠ some op)
      ?_ ?_
  · cases op <;> decide
  · intro hBare
    rw [Bool.or_eq_false_iff, variadicLevel_eq] at hBare
    rcases hBare with ⟨hOther, hLevel⟩
    simp only [decide_eq_false_iff_not] at hLevel
    exact ⟨by omega, open?_ne_of_isVariadic hOther⟩

theorem isReadable_variadic
    {op : VariadicOp}
    {operands : List (Node α)}
    {mark : α}
    (hReadable :
      Node.AllBelow α (sizeOf (Node.variadic op operands mark))
        (IsReadable options named)) :
    IsReadable options named (.variadic op operands mark) := by
  refine isReadable_of_succ fun depth levels text hShaped hText => ?_
  simp only [Node.isShaped, Bool.and_eq_true, decide_eq_true_eq]
    at hShaped
  rcases hShaped with ⟨hTwo, hOperands⟩
  cases operands with
  | nil => simp at hTwo
  | cons first others => ?_
  cases others with
  | nil => simp at hTwo
  | cons second rest =>
      rw [bare] at hText
      rcases exists_of_bind_eq_ok hText with
        ⟨firstText, hFirst, hRest⟩
      rcases exists_of_bind_eq_ok hRest with
        ⟨texts, hTexts, hPure⟩
      cases hPure
      rw [Node.areShaped_cons, Bool.and_eq_true] at hOperands
      have hParts :
          Node.AllBelow α (sizeOf (first :: second :: rest))
            (IsReadable options named) :=
        hReadable.mono (by simp)
      have hFront :=
        hParts.head depth firstText hOperands.1 hFirst
      rcases exists_first op hFront with
        ⟨found, found?, ⟨hFound, hOpen⟩, hWritten⟩
      have hGrows := Written.grows_first hWritten hFound hOpen
      have hOthers := hOperands.2
      rw [Node.areShaped_cons, Bool.and_eq_true] at hOthers
      rcases exists_grown hGrows hParts.tail hOthers.1 hTexts with
        ⟨secondText, more, hGrown, hMore, rfl⟩
      have hAll :=
        written_of_furtherOperands hGrown hParts.tail.tail
          hOthers.2 hMore
      have hLevel :
          level (.variadic op (first :: second :: rest) mark) =
            op.level :=
        variadicLevel_eq op
      rw [join_merge, hLevel]
      exact hAll

theorem isReadable_switch
    {found : List (Case α)}
    {mark : α}
    (hReadable :
      Node.AllBelow α (sizeOf (Node.switch found mark))
        (IsReadable options named)) :
    IsReadable options named (.switch found mark) := by
  refine isReadable_of_succ fun depth levels text hShaped hText => ?_
  cases found with
  | nil =>
      cases hText
      exact .switch_nil
  | cons first rest =>
      rw [bare] at hText
      rcases exists_of_bind_eq_ok hText with
        ⟨lines, hLines, hBrace⟩
      rcases exists_of_bind_eq_ok hBrace with
        ⟨margin, hMargin, hPure⟩
      cases hPure
      rcases exists_of_margin hMargin with ⟨width, rfl⟩
      have hBody :=
        caseBody_of_cases (hReadable.mono (by simp)) hShaped hLines
      exact .switch width hBody

theorem isReadable_cond
    {steps : List (Branch α)}
    {mark : α}
    (hReadable :
      Node.AllBelow α (sizeOf (Node.cond steps mark))
        (IsReadable options named)) :
    IsReadable options named (.cond steps mark) := by
  refine isReadable_of_succ fun depth levels text hShaped hText => ?_
  rw [bare] at hText
  rcases exists_of_bind_eq_ok hText with ⟨texts, hTexts, hPure⟩
  cases hPure
  match steps with
  | [] => cases hShaped
  | .otherwise last :: rest =>
      simp [Node.isShaped, Node.areSteps] at hShaped
  | .test guard node :: rest =>
      exact
        .chain
          (chained_of_branches (hReadable.mono (by simp)) hShaped
            hTexts)

/- What is written of a shaped tree is read as the tree. -/
theorem isReadable (node : Node α) :
    IsReadable options named node := by
  have hReadable :
      Node.AllBelow α (sizeOf node) (IsReadable options named) :=
    fun smaller _ => isReadable smaller
  cases node with
  | sequence body mark => exact isReadable_sequence hReadable
  | assign name value mark =>
      intro depth levels text hShaped
      cases hShaped
  | «return» value mark =>
      refine
        isReadable_of_succ fun depth levels text hShaped hText => ?_
      rw [bare] at hText
      rcases exists_of_bind_eq_ok hText with
        ⟨valueText, hValue, hPure⟩
      cases hPure
      have hWritten :=
        hReadable value (by simp) depth valueText hShaped hValue
      exact hWritten.returned
  | «variable» name mark =>
      refine
        isReadable_of_succ fun depth levels text hShaped hText => ?_
      cases hText
      exact .variable hShaped
  | literal value embedded mark =>
      refine
        isReadable_of_succ fun depth levels text hShaped hText => ?_
      cases embedded with
      | true =>
          simp only [Node.isShaped, Bool.and_eq_true] at hShaped
          rw [bare] at hText
          rcases exists_of_bind_eq_ok hText with
            ⟨valueText, hValue, hPure⟩
          cases hPure
          exact .embedded hShaped.1 hValue
      | false =>
          simp only [Node.isShaped, Bool.and_eq_true] at hShaped
          rw [bare] at hText
          exact .constant hShaped.1 hText
  | array items mark => exact isReadable_array hReadable
  | index base position mark => exact isReadable_index hReadable
  | call name arguments mark => exact isReadable_call hReadable
  | callNamed name arguments mark =>
      exact isReadable_callNamed hReadable
  | unary op operand mark => exact isReadable_unary hReadable
  | binary op left right mark => exact isReadable_binary hReadable
  | variadic op operands mark =>
      exact isReadable_variadic hReadable
  | switch cases mark => exact isReadable_switch hReadable
  | cond steps mark => exact isReadable_cond hReadable
  | fragment part =>
      intro depth levels text hShaped
      cases hShaped
termination_by sizeOf node

end Format

end ExperimentScript
