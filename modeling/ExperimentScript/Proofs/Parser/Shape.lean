import ExperimentScript.Proofs.Json.Bounded
import ExperimentScript.Proofs.Lexer.Sound
import ExperimentScript.Proofs.Parser.Yield

/-
  The shape of what is read from tokens.

  When every identifier among the tokens is a name and every
  constant is within bounds, whatever a production reads has
  the shape of a script tree. Each production passes on the
  shapes that the reader of smaller expressions yields.

  Key definitions include:
    * `ExperimentScript.Cursor.IsSound`
    * `ExperimentScript.Production.Shaped`

  Main declarations:
    * `ExperimentScript.Embedded.yields_read`
    * `ExperimentScript.Production.yields_operand`
    * `ExperimentScript.Production.yields_operators`
    * `ExperimentScript.yields_expression`
    * `ExperimentScript.yields_script`
    * `ExperimentScript.isScript_of_parse`
-/

namespace ExperimentScript

------------------------------------------------------------
-- Sound Tokens
------------------------------------------------------------

/- All tokens from a place on are sound. -/
def Cursor.IsSound (cursor : Cursor) : Prop :=
  ∀ token ∈ cursor.rest, token.isSound = true

namespace Cursor.IsSound

variable {cursor : Cursor} {token : Token}

/- An identifier among sound tokens is a name. -/
theorem isName
    (hSound : cursor.IsSound)
    (hMem : token ∈ cursor.rest)
    (hKind : token.kind = .identifier) :
    Format.isName token.text = true := by
  simpa [Token.isSound, hKind] using hSound token hMem

/- A constant among sound tokens is a scalar within bounds. -/
theorem isScalar
    (hSound : cursor.IsSound)
    (hMem : token ∈ cursor.rest)
    (hKind : token.kind = .number ∨ token.kind = .string) :
    (token.literal.getD .null).isScalar = true ∧
      (token.literal.getD .null).isBounded = true := by
  have hToken := hSound token hMem
  rcases hKind with hNumber | hString
  · simpa [Token.isSound, hNumber] using hToken
  · simpa [Token.isSound, hString] using hToken

end Cursor.IsSound

------------------------------------------------------------
-- Embedded Constants
------------------------------------------------------------

namespace Embedded

open Parse

variable {strict : Bool} {origin : Cursor}

/-
  A constant read among sound tokens is within bounds. Where
  strings are not read as JSON its fields are named by
  identifiers.
-/
def Admitted
    (strict : Bool)
    (origin : Cursor)
    (value : Value) : Prop :=
  origin.IsSound →
    value.isBounded = true ∧
      (strict = false → value.isNamed = true)

/- This holds of a list of constants. -/
def AllAdmitted
    (strict : Bool)
    (origin : Cursor)
    (values : List Value) : Prop :=
  Admitted strict origin (.list values)

/- A scalar within bounds is admitted. -/
theorem admitted_scalar
    {value : Value}
    (hValue :
      origin.IsSound →
        value.isScalar = true ∧ value.isBounded = true) :
    Admitted strict origin value := by
  intro hSound
  rcases hValue hSound with ⟨hScalar, hBounded⟩
  refine ⟨hBounded, fun _ => ?_⟩
  cases value <;>
    first | rfl | simp [Value.isScalar] at hScalar

theorem admitted_cons
    {value : Value}
    {values : List Value}
    (hValue : Admitted strict origin value)
    (hValues : AllAdmitted strict origin values) :
    AllAdmitted strict origin (value :: values) := by
  intro hSound
  rcases hValue hSound with ⟨hBounded, hNamed⟩
  rcases hValues hSound with ⟨hAllBounded, hAllNamed⟩
  simp only [Value.isBounded, Value.isNamed] at hAllBounded hAllNamed
  refine ⟨?_, fun hLenient => ?_⟩
  · simp [Value.isBounded, Value.areBounded, hBounded, hAllBounded]
  · simp [Value.isNamed, Value.areNamed, hNamed hLenient,
      hAllNamed hLenient]

/- Setting a field whose name is an identifier keeps a map admitted. -/
theorem admitted_set
    {fields : Fields Value}
    {name : Text}
    {value : Value}
    (hFields : Admitted strict origin (.map fields))
    (hName : origin.IsSound → Format.isName name = true)
    (hValue : Admitted strict origin value) :
    Admitted strict origin (.map (fields.set name value)) := by
  intro hSound
  rcases hValue hSound with ⟨hBounded, hNamed⟩
  rcases hFields hSound with ⟨hAllBounded, hAllNamed⟩
  simp only [Value.isBounded, Bool.and_eq_true, Value.isNamed,
    Value.haveBounded_iff, Value.haveNamed_iff]
    at hAllBounded hAllNamed ⊢
  refine
    ⟨⟨Fields.areDistinct_set hAllBounded.1 name value, ?_⟩,
      fun hLenient => ?_⟩
  · exact
      Fields.forall_mem_set
        (fun _ (value : Value) => value.isBounded = true)
        hAllBounded.2 hBounded
  · exact
      Fields.forall_mem_set
        (fun name (value : Value) =>
          Format.isName name = true ∧ value.isNamed = true)
        (hAllNamed hLenient) ⟨hName hSound, hNamed hLenient⟩

theorem yields_unexpected
    {α : Type}
    {good : α → Prop}
    (kinds : List TokenKind) :
    Yields origin (unexpected kinds : Parse α) good :=
  .step .current fun _ => .throw _

theorem yields_expect (kind : TokenKind) :
    Yields origin (expect kind) fun token =>
      token ∈ origin.rest ∧ token.kind = kind := by
  intro cursor hCursor
  simp only [expect, ends_bind, ends_current, ends_ite]
  split
  · rename_i hKind
    exact
      ⟨cursor.rest_next_suffix.trans hCursor,
        hCursor.subset (List.mem_cons_self ..), hKind⟩
  · exact yields_unexpected [kind] cursor hCursor

theorem yields_items
    {value : Parse Value}
    (hValue : Yields origin value (Admitted strict origin))
    (fuel : Nat) :
    Yields origin (items value fuel)
      (AllAdmitted strict origin) := by
  induction fuel with
  | zero => exact yields_unexpected _
  | succ fuel ih =>
      refine .bind hValue fun item hItem => .step .current fun next => ?_
      split
      · refine .step .advance fun _ => .bind ih fun rest hRest => ?_
        exact .pure (admitted_cons hItem hRest)
      · refine .step .advance fun _ => .pure ?_
        exact admitted_cons hItem fun _ => ⟨rfl, fun _ => rfl⟩
      · exact yields_unexpected _

theorem yields_list
    {value : Parse Value}
    (hValue : Yields origin value (Admitted strict origin)) :
    Yields origin (list value) (Admitted strict origin) := by
  refine .step .current fun next => ?_
  split
  · exact .step .advance fun _ =>
      .pure fun _ => ⟨rfl, fun _ => rfl⟩
  · exact .step .get fun _ =>
      .bind (yields_items hValue _) fun _ hItems => .pure hItems

theorem yields_fields
    {value : Parse Value}
    (hValue : Yields origin value (Admitted strict origin))
    (fuel : Nat)
    (before : Fields Value)
    (hBefore : Admitted strict origin (.map before)) :
    Yields origin (fields value fuel before) fun after =>
      Admitted strict origin (.map after) := by
  induction fuel generalizing before with
  | zero => exact yields_unexpected _
  | succ fuel ih =>
      refine .bind (yields_expect _) fun name hName => ?_
      refine .step (yields_expect _) fun _ => ?_
      refine .bind hValue fun item hItem => ?_
      have hAfter :
          Admitted strict origin (.map (before.set name.text item)) :=
        admitted_set hBefore
          (fun hSound => hSound.isName hName.1 hName.2) hItem
      refine .step .current fun next => ?_
      split
      · exact .step .advance fun _ => ih _ hAfter
      · exact .step .advance fun _ => .pure hAfter
      · exact yields_unexpected _

theorem yields_map
    {value : Parse Value}
    (hValue : Yields origin value (Admitted strict origin)) :
    Yields origin (map value) (Admitted strict origin) := by
  refine .step .current fun next => ?_
  split
  · exact .step .advance fun _ =>
      .pure fun _ => ⟨rfl, fun _ => rfl⟩
  · exact .step .get fun _ =>
      .bind
        (yields_fields hValue _ [] fun _ => ⟨rfl, fun _ => rfl⟩)
        fun _ hFields => .pure hFields

/- What a string stands for is admitted, also when it is read as JSON. -/
theorem yields_stringValue
    {token : Token}
    (hMem : token ∈ origin.rest)
    (hKind : token.kind = .string)
    (depth : Nat) :
    Yields origin (stringValue strict depth token)
      (Admitted strict origin) := by
  unfold stringValue
  split
  · split
    · rename_i value hDecode
      refine .pure fun _ => ⟨?_, fun hLenient => ?_⟩
      · exact Json.isBounded_of_decode hDecode
      · cases hLenient
    · exact .throw _
    · exact .tooDeep _
  · refine .pure (admitted_scalar fun hSound => ?_)
    exact hSound.isScalar hMem (.inr hKind)

/- Embedded constants are admitted, however deep they nest. -/
theorem yields_value (depth : Nat) :
    Yields origin (value strict depth)
      (Admitted strict origin) := by
  induction depth with
  | zero => exact .tooDeep _
  | succ depth ih =>
      refine .bind .current fun token hMem => ?_
      split
      · exact .step .advance fun _ => yields_list ih
      · exact .step .advance fun _ => yields_map ih
      · exact .step .advance fun _ =>
          .pure (admitted_scalar fun _ => ⟨rfl, rfl⟩)
      · rename_i hKind
        exact .step .advance fun _ =>
          .pure (admitted_scalar fun hSound =>
            hSound.isScalar hMem (.inl hKind))
      · rename_i hKind
        exact .step .advance fun _ =>
          yields_stringValue hMem hKind _
      · exact .step .advance fun _ =>
          .pure (admitted_scalar fun _ => ⟨rfl, rfl⟩)
      · exact .step .advance fun _ =>
          .pure (admitted_scalar fun _ => ⟨rfl, rfl⟩)
      · exact .step .advance fun _ =>
          .pure (admitted_scalar fun _ => ⟨rfl, rfl⟩)
      · exact yields_unexpected _

theorem yields_read :
    Yields origin (read strict) (Admitted strict origin) :=
  yields_value maxDepth

end Embedded

------------------------------------------------------------
-- Productions
------------------------------------------------------------

namespace Production

open Parse

/- Among sound tokens, a node has the shape of an expression. -/
def Shaped
    (strict : Bool)
    (origin : Cursor)
    (node : Node Span) : Prop :=
  origin.IsSound → node.isShaped (!strict) = true

/- Among sound tokens, nodes have the shape of statements. -/
def StatementsShaped
    (strict : Bool)
    (origin : Cursor)
    (nodes : List (Node Span)) : Prop :=
  origin.IsSound → Node.areStatements (!strict) nodes = true

/- Among sound tokens, all nodes have the shape of expressions. -/
def AllShaped
    (strict : Bool)
    (origin : Cursor)
    (nodes : List (Node Span)) : Prop :=
  origin.IsSound → Node.areShaped (!strict) nodes = true

/- Among sound tokens, named arguments are shaped and distinct. -/
def ArgumentsShaped
    (strict : Bool)
    (origin : Cursor)
    (arguments : Fields (Node Span)) : Prop :=
  origin.IsSound →
    arguments.areDistinct = true ∧
      Node.haveShaped (!strict) arguments = true

variable {strict : Bool} {origin : Cursor}
variable {expression : ExpressionReader}

variable
  (hExpression :
    ∀ power, Yields origin (expression power) (Shaped strict origin))

include hExpression

------------------------------------------------------------
-- Statements And Lists
------------------------------------------------------------

theorem yields_statement :
    Yields origin (statement expression) fun node =>
      origin.IsSound → node.isStatement (!strict) = true := by
  refine .bind .current fun token hMem => ?_
  refine .step .followingKind fun following => ?_
  split
  · rename_i hAssign
    have hKind : token.kind = .identifier := by
      simp only [Bool.and_eq_true, decide_eq_true_eq] at hAssign
      exact hAssign.1
    refine .step .advance fun _ => .step .advance fun _ => ?_
    refine .bind (hExpression 0) fun value hValue => ?_
    exact .spanned fun span hSound => by
      simp [Node.isStatement, hSound.isName hMem hKind,
        hValue hSound]
  · exact (hExpression 0).mono fun node hNode hSound =>
      Node.isStatement_of_isShaped (hNode hSound)

theorem yields_statements
    (close : TokenKind)
    (fuel : Nat) :
    Yields origin (statements expression close fuel)
      (StatementsShaped strict origin) := by
  induction fuel with
  | zero => exact .unexpected
  | succ fuel ih =>
      refine .step (.check _) fun closed => ?_
      split
      · exact .pure fun _ => rfl
      · refine .bind (yields_statement hExpression)
          fun first hFirst => ?_
        have hMore :
            Yields origin
              (do return first ::
                (← statements expression close fuel))
              (StatementsShaped strict origin) :=
          .bind ih fun rest hRest => .pure fun hSound => by
            simp [hFirst hSound, hRest hSound]
        refine .step (.accept _) fun ended => ?_
        split
        · exact hMore
        · refine .step (.check _) fun last => ?_
          split
          · exact .pure fun hSound => by simp [hFirst hSound]
          · refine .step .get fun cursor => ?_
            split
            · exact hMore
            · exact .unexpected

theorem yields_block :
    Yields origin (block expression) (Shaped strict origin) := by
  refine .step .advance fun _ => .step .get fun cursor => ?_
  refine .bind (yields_statements hExpression _ _)
    fun inner hInner => ?_
  exact .step (.expect _) fun _ => .spanned fun _ => hInner

theorem yields_commaSeparated (fuel : Nat) :
    Yields origin (commaSeparated expression fuel) fun nodes =>
      nodes ≠ [] ∧ AllShaped strict origin nodes := by
  induction fuel with
  | zero => exact .unexpected
  | succ fuel ih =>
      refine .bind (hExpression 0) fun first hFirst => ?_
      refine .step (.accept _) fun more => ?_
      split
      · refine .bind ih fun rest hRest => .pure ?_
        exact ⟨by simp, fun hSound => by
          simp [hFirst hSound, hRest.2 hSound]⟩
      · exact .pure ⟨by simp, fun hSound => by
          simp [hFirst hSound]⟩

theorem yields_array :
    Yields origin (array expression) (Shaped strict origin) := by
  refine .step .advance fun opening => ?_
  have hTail :
      ∀ items, AllShaped strict origin items →
        Yields origin
          (do
            let _ ← expect .rightBracket
            return .array items (← spanFrom opening.span))
          (Shaped strict origin) := fun _ hItems =>
    .step (.expect _) fun _ => .spanned fun _ => hItems
  refine .step (.check _) fun closed => ?_
  split
  · exact hTail [] fun _ => rfl
  · exact .step .get fun _ =>
      .bind (yields_commaSeparated hExpression _)
        fun items hItems => hTail items hItems.2

------------------------------------------------------------
-- Calls
------------------------------------------------------------

theorem yields_namedArguments
    (fuel : Nat)
    (before : Fields (Node Span))
    (hBefore : ArgumentsShaped strict origin before) :
    Yields origin (namedArguments expression fuel before)
      (ArgumentsShaped strict origin) := by
  induction fuel generalizing before with
  | zero => exact .unexpected
  | succ fuel ih =>
      refine .bind (.expect _) fun name hName => ?_
      have hTail :
          Yields origin
            (do
              let _ ← advance
              let after := before.set name.text (← expression 0)
              if ← accept .comma then
                namedArguments expression fuel after
              else
                return after)
            (ArgumentsShaped strict origin) := by
        refine .step .advance fun _ => ?_
        refine .bind (hExpression 0) fun value hValue => ?_
        have hAfter :
            ArgumentsShaped strict origin
              (before.set name.text value) := by
          intro hSound
          rcases hBefore hSound with ⟨hDistinct, hShaped⟩
          rw [Node.haveShaped_iff] at hShaped ⊢
          exact
            ⟨Fields.areDistinct_set hDistinct _ _,
              Fields.forall_mem_set
                (fun name (node : Node Span) =>
                  Format.isName name = true ∧
                    node.isShaped (!strict) = true)
                hShaped
                ⟨hSound.isName hName.1 hName.2,
                  hValue hSound⟩⟩
        refine .step (.accept _) fun more => ?_
        split
        · exact ih _ hAfter
        · exact .pure hAfter
      refine .step (.check _) fun colon => ?_
      split
      · refine .step (.check _) fun assign => ?_
        split
        · exact .unexpected
        · exact hTail
      · exact hTail

omit hExpression in
theorem yields_namedArgumentAhead :
    Yields origin namedArgumentAhead fun _ => True :=
  .step .followingKind fun _ => .step .current fun _ => .pure trivial

/-
  After its opening parenthesis a call of a name yields a
  shaped node, whatever tokens it starts from.
-/
theorem exists_call_tail
    (name : Text)
    (start : Span) :
    ∃ tail,
      call expression name start = (do let _ ← advance; tail) ∧
        Yields origin tail fun node =>
          Format.isName name = true →
            Shaped strict origin node := by
  refine ⟨_, rfl, ?_⟩
  refine .step (.accept _) fun closed => ?_
  split
  · exact .spanned fun _ hName _ => by
      simp [Node.isShaped, Node.haveShaped, hName,
        Fields.areDistinct, Fields.names]
  · refine .step yields_namedArgumentAhead fun isNamed => ?_
    split
    · refine .step .get fun _ => ?_
      refine .bind
        (yields_namedArguments hExpression _ [] fun _ =>
          ⟨rfl, rfl⟩) fun arguments hArguments => ?_
      refine .step (.expect _) fun _ => ?_
      exact .spanned fun _ hName hSound => by
        simp [Node.isShaped, hName, hArguments hSound]
    · refine .step .get fun _ => ?_
      refine .bind (yields_commaSeparated hExpression _)
        fun arguments hArguments => ?_
      refine .step (.expect _) fun _ => ?_
      exact .spanned fun _ hName hSound => by
        simp [Node.isShaped, hName, hArguments.1,
          hArguments.2 hSound]

theorem yields_call
    (name : Text)
    (start : Span) :
    Yields origin (call expression name start) fun node =>
      Format.isName name = true → Shaped strict origin node := by
  rcases exists_call_tail hExpression name start with
    ⟨tail, hCall, hTail⟩
  rw [hCall]
  exact .step .advance fun _ => hTail

------------------------------------------------------------
-- Switches And If-Chains
------------------------------------------------------------

omit hExpression in
theorem yields_connectiveAhead (word : Text) :
    Yields origin (connectiveAhead word) fun _ => True :=
  .step .current fun _ => .step .followingKind fun _ => .pure trivial

/- Cases are shaped if the ones after the first are. -/
theorem yields_cases (fuel : Nat) :
    Yields origin (cases expression fuel) fun inner =>
      origin.IsSound → Node.areCases (!strict) inner = true := by
  induction fuel with
  | zero => exact .unexpected
  | succ fuel ih =>
      have hResult :
          ∀ guard, Shaped strict origin guard →
            Yields origin
              (do
                let _ ← advance
                let result ← expression 0
                let _ ← accept .semicolon
                return .mk guard result ::
                  (← cases expression fuel))
              fun inner =>
                origin.IsSound →
                  Node.areCases (!strict) inner = true := by
        intro guard hGuard
        refine .step .advance fun _ => ?_
        refine .bind (hExpression 0) fun result hResult => ?_
        refine .step (.accept _) fun _ => ?_
        refine .bind ih fun rest hRest => .pure fun hSound => ?_
        simp [Node.areCases, hGuard hSound, hResult hSound,
          hRest hSound]
      have hGuard :
          Yields origin
            (do
              let guard ← expression 0
              if !(← check .colon) then
                if !(← check .fatArrow) then
                  unexpected
              let _ ← advance
              let result ← expression 0
              let _ ← accept .semicolon
              return .mk guard result ::
                (← cases expression fuel))
            fun inner =>
              origin.IsSound →
                Node.areCases (!strict) inner = true := by
        refine .bind (hExpression 0) fun guard hGuard => ?_
        refine .step (.check _) fun colon => ?_
        split
        · refine .step (.check _) fun arrow => ?_
          split
          · exact .unexpected
          · exact hResult guard hGuard
        · exact hResult guard hGuard
      refine .step (.check _) fun closed => ?_
      split
      · exact .pure fun _ => rfl
      · refine .step (yields_connectiveAhead _) fun word => ?_
        split
        · exact .step .advance fun _ => hGuard
        · exact hGuard

theorem yields_switch :
    Yields origin (switch expression) (Shaped strict origin) := by
  refine .step .advance fun _ => .step (.expect _) fun _ => ?_
  refine .step .get fun _ => ?_
  refine .bind (yields_cases hExpression _) fun inner hInner => ?_
  exact .step .advance fun _ => .spanned fun _ => hInner

omit hExpression in
theorem yields_skipThen :
    Yields origin skipThen fun _ => True := by
  refine .step (.check _) fun arrow => ?_
  split
  · exact .step .advance fun _ => .pure trivial
  · refine .step (yields_connectiveAhead _) fun word => ?_
    split
    · exact .step .advance fun _ => .pure trivial
    · exact .pure trivial

/- The steps of an if-chain are shaped wherever they stand. -/
theorem yields_branches (fuel : Nat) :
    Yields origin (branches expression fuel) fun steps =>
      origin.IsSound →
        ∀ isFirst, Node.areSteps (!strict) isFirst steps = true := by
  induction fuel with
  | zero => exact .unexpected
  | succ fuel ih =>
      refine .step (.expect _) fun _ => ?_
      refine .bind (hExpression 0) fun guard hGuard => ?_
      refine .step (.expect _) fun _ => ?_
      refine .step yields_skipThen fun _ => ?_
      refine .bind (hExpression 0) fun node hNode => ?_
      refine .step (.accept _) fun more => ?_
      split
      · refine .step (.accept _) fun again => ?_
        split
        · refine .bind ih fun rest hRest => .pure fun hSound _ => ?_
          simp [Node.areSteps, hGuard hSound, hNode hSound,
            hRest hSound]
        · refine .bind (hExpression 0) fun last hLast => ?_
          refine .pure fun hSound _ => ?_
          simp [Node.areSteps, hGuard hSound, hNode hSound,
            hLast hSound]
      · refine .pure fun hSound _ => ?_
        simp [Node.areSteps, hGuard hSound, hNode hSound]

theorem yields_ifChain :
    Yields origin (ifChain expression) (Shaped strict origin) := by
  refine .step .advance fun _ => .step .get fun _ => ?_
  refine .bind (yields_branches hExpression _) fun steps hSteps => ?_
  exact .spanned fun _ hSound => hSteps hSound true

------------------------------------------------------------
-- Operands
------------------------------------------------------------

theorem yields_unary (op : UnaryOp) :
    Yields origin (unary expression op) (Shaped strict origin) := by
  refine .step .advance fun _ => ?_
  refine .bind (hExpression _) fun operand hOperand => ?_
  exact .spanned fun _ => hOperand

omit hExpression in
theorem yields_constant
    {value : Value}
    (hValue :
      origin.IsSound →
        value.isScalar = true ∧ value.isBounded = true) :
    Yields origin (constant value) (Shaped strict origin) :=
  .step .advance fun _ => .pure fun hSound => by
    simp [Node.isShaped, hValue hSound]

omit hExpression in
theorem yields_embedded :
    Yields origin (embedded strict) (Shaped strict origin) := by
  refine .step .advance fun _ => ?_
  refine .bind Embedded.yields_read fun value hValue => ?_
  refine .spanned fun _ hSound => ?_
  rcases hValue hSound with ⟨hBounded, hNamed⟩
  cases strict with
  | false => simp [Node.isShaped, hBounded, hNamed]
  | true => simp [Node.isShaped, hBounded]

theorem yields_parenthesised :
    Yields origin (parenthesised expression)
      (Shaped strict origin) := by
  refine .step .advance fun _ => ?_
  refine .bind (hExpression 0) fun inner hInner => ?_
  exact .step (.expect _) fun _ => .pure hInner

theorem yields_returned :
    Yields origin (returned expression) (Shaped strict origin) := by
  refine .step .advance fun _ => ?_
  refine .bind (hExpression 0) fun value hValue => ?_
  exact .spanned fun _ => hValue

/- Every kind of operand is shaped. -/
theorem yields_operand :
    Yields origin (operand strict expression)
      (Shaped strict origin) := by
  refine .bind .current fun token hMem => ?_
  split
  · exact yields_unary hExpression _
  · exact yields_unary hExpression _
  · exact yields_constant fun _ => ⟨rfl, rfl⟩
  · exact yields_constant fun _ => ⟨rfl, rfl⟩
  · exact yields_constant fun _ => ⟨rfl, rfl⟩
  · rename_i hKind
    exact yields_constant fun hSound =>
      hSound.isScalar hMem (.inl hKind)
  · rename_i hKind
    exact yields_constant fun hSound =>
      hSound.isScalar hMem (.inr hKind)
  · rename_i hKind
    exact .step .advance fun _ => .pure fun hSound =>
      hSound.isName hMem hKind
  · exact yields_parenthesised hExpression
  · exact yields_array hExpression
  · exact yields_block hExpression
  · exact yields_embedded
  · exact yields_switch hExpression
  · exact yields_ifChain hExpression
  · exact yields_returned hExpression
  · exact .step (.seek _) fun _ => .unexpected

------------------------------------------------------------
-- Operators Between Operands
------------------------------------------------------------

theorem yields_index
    {base : Node Span}
    (hBase : Shaped strict origin base) :
    Yields origin (index expression base)
      (Shaped strict origin) := by
  refine .step .advance fun _ => ?_
  refine .bind (hExpression 0) fun position hPosition => ?_
  exact .step (.expect _) fun _ => .spanned fun _ hSound => by
    simp [Node.isShaped, hBase hSound, hPosition hSound]

end Production

/- One more operand keeps an operator shaped. -/
theorem Chain.isShaped_extend
    {named : Bool}
    {chain : Chain}
    {operand : Node Span}
    (hChain : chain.node.isShaped named = true)
    (hOperand : operand.isShaped named = true)
    (op : VariadicOp)
    (span : Span) :
    (chain.extend op operand span).node.isShaped named = true := by
  have hPair :
      (Node.variadic op [chain.node, operand] span).isShaped named =
        true := by
    simp [Node.isShaped, hChain, hOperand]
  unfold extend
  split
  · rename_i inner operands mark hNode
    split
    · rw [hNode] at hChain
      simp only [Node.isShaped, Bool.and_eq_true,
        decide_eq_true_eq] at hChain
      simp only [Node.isShaped, Node.areShaped_append,
        List.length_append, List.length_singleton,
        Node.areShaped_cons, Node.areShaped_nil, Bool.and_true,
        decide_eq_true_eq, hChain, hOperand]
      omega
    · exact hPair
  · exact hPair

/- The node for an operator is shaped if its operands are. -/
theorem Chain.isShaped_combine
    {named : Bool}
    {chain : Chain}
    {right : Node Span}
    (hChain : chain.node.isShaped named = true)
    (hRight : right.isShaped named = true)
    (kind : TokenKind) :
    (chain.combine kind right).node.isShaped named = true := by
  unfold combine
  split
  · refine isShaped_extend hChain ?_ _ _
    split
    · exact hRight
    · exact hRight
  · split
    · simp [Node.isShaped, hChain, hRight]
    · simp [Node.isShaped, hChain, hRight]

namespace Production

open Parse

variable {strict : Bool} {origin : Cursor}
variable {expression : ExpressionReader}

/- Operators keep what they continue shaped. -/
theorem yields_operators
    (hExpression :
      ∀ power, Yields origin (expression power)
        (Shaped strict origin))
    (power fuel : Nat)
    (chain : Chain)
    (hChain : Shaped strict origin chain.node) :
    Yields origin (operators expression power fuel chain)
      (Shaped strict origin) := by
  induction fuel generalizing chain with
  | zero => exact .unexpected
  | succ fuel ih =>
      refine .step (.seek _) fun _ => .step .current fun token => ?_
      dsimp only
      split
      · split
        · exact .pure hChain
        · refine .bind (yields_index hExpression hChain)
            fun node hNode => ?_
          exact ih ⟨node, none⟩ hNode
      · rename_i name span hKind hCallee
        have hName :
            origin.IsSound → Format.isName name = true := by
          intro hSound
          have hNode := hChain hSound
          cases hLeft : chain.node with
          | «variable» other mark =>
              rw [hLeft] at hCallee hNode
              cases hCallee
              exact hNode
          | _ => simp [hLeft, callee?] at hCallee
        split
        · exact .pure hChain
        · refine .bind (yields_call hExpression name span)
            fun node hNode => ?_
          exact ih ⟨node, none⟩ fun hSound =>
            hNode (hName hSound) hSound
      · split
        · exact .pure hChain
        · split
          · exact .pure hChain
          · refine .step .advance fun _ => ?_
            refine .bind (hExpression _) fun right hRight => ?_
            exact ih _ fun hSound =>
              Chain.isShaped_combine (hChain hSound)
                (hRight hSound) token.kind

end Production

------------------------------------------------------------
-- Expressions And Scripts
------------------------------------------------------------

open Parse Production

variable {strict : Bool} {origin : Cursor}

/- Expressions are shaped, however deep they nest. -/
theorem yields_expression (depth power : Nat) :
    Yields origin (expression strict depth power)
      (Shaped strict origin) := by
  induction depth generalizing power with
  | zero => exact .tooDeep _
  | succ depth ih =>
      refine .bind (yields_operand ih) fun first hFirst => ?_
      exact .step .get fun cursor =>
        yields_operators ih power cursor.fuel ⟨first, none⟩ hFirst

/- The tree of a script has the shape of one. -/
theorem yields_script :
    Yields origin (script strict) fun tree =>
      origin.IsSound → tree.isScript (!strict) = true := by
  refine .step .get fun cursor => ?_
  refine .bind (yields_statements (yields_expression maxDepth) _ _)
    fun body hBody => ?_
  exact .step .current fun _ => .pure hBody

/- The tokens of a text are sound from the first place on. -/
theorem Cursor.isSound_start
    {text : Text}
    {tokens : List Token}
    (hTokens : tokenize text = .ok tokens) :
    (Cursor.start tokens).IsSound := by
  intro token hMem
  cases tokens with
  | nil =>
      cases List.mem_singleton.mp hMem
      rfl
  | cons first tokens =>
      exact isSound_of_tokenize hTokens token hMem

/- A tree is read from the tokens of a text. -/
theorem exists_of_parse
    {strict : Bool}
    {text : Text}
    {tree : Node Span}
    (hParse : parse strict text = .ok tree) :
    ∃ tokens,
      tokenize text = .ok tokens ∧
        parseTokens strict tokens = .ok tree := by
  simp only [parse] at hParse
  split at hParse
  · cases hParse
  · rename_i tokens hTokens
    split at hParse
    · cases hParse
    · rename_i read hRead
      cases hParse
      exact ⟨tokens, hTokens, hRead⟩

/- What is read from the tokens of a text is a script. -/
theorem isScript_of_parseTokens
    {strict : Bool}
    {text : Text}
    {tokens : List Token}
    {tree : Node Span}
    (hTokens : tokenize text = .ok tokens)
    (hRead : parseTokens strict tokens = .ok tree) :
    tree.isScript (!strict) = true := by
  simp only [parseTokens] at hRead
  split at hRead
  · rename_i after hScript
    cases hRead
    exact
      (yields_script.of_ok (List.suffix_refl _) hScript).2
        (Cursor.isSound_start hTokens)
  · cases hRead

/-
  Every tree that is read from a text has the shape of a
  script. Where strings are not read as JSON, the fields of
  its embedded constants are named by identifiers. All its
  nodes carry spans, as fragments have no shape.
-/
theorem isScript_of_parse
    {strict : Bool}
    {text : Text}
    {tree : Node Span}
    (hParse : parse strict text = .ok tree) :
    tree.isScript (!strict) = true := by
  rcases exists_of_parse hParse with ⟨tokens, hTokens, hRead⟩
  exact isScript_of_parseTokens hTokens hRead

/- A chain of operators with a call among its operands is a script. -/
theorem isScript_of_parse_chain :
    ∃ tree : Node Span,
      parse false "x = a - 1 + f(k = @\x7bn: 2\x7d);" = .ok tree ∧
        tree.isScript true = true := by
  have hReads :
      (parse false
        "x = a - 1 + f(k = @\x7bn: 2\x7d);").toOption.isSome =
          true := by
    decide +kernel
  cases hParse :
      parse false "x = a - 1 + f(k = @\x7bn: 2\x7d);" with
  | error error =>
      rw [hParse] at hReads
      cases hReads
  | ok tree => exact ⟨tree, rfl, isScript_of_parse hParse⟩

end ExperimentScript
