import ExperimentScript.Proofs.Parser.Joined
import ExperimentScript.Proofs.Parser.Row

/-
  Every node that is read is formed from the tokens taken.

  Each production is followed from the tokens that it has
  taken so far to those that it takes altogether. What it
  gives is then an entry of just these tokens, with the span
  from the first of them to the last.

  Key definitions include:
    * `ExperimentScript.Parse.ConstruesAfter`
    * `ExperimentScript.Production.Assigns`

  Main declarations:
    * `ExperimentScript.construes_expression`
    * `ExperimentScript.Production.construes_statements`
    * `ExperimentScript.pieces_of_parse`
    * `ExperimentScript.segment_of_parse`
-/

namespace ExperimentScript

------------------------------------------------------------
-- Tokens Taken So Far
------------------------------------------------------------

namespace Parse

variable {α β : Type}
variable {before : List Token}
variable {right : List Token → α → Prop}
variable {step : Parse α}
variable {cursor : Cursor}

theorem ConstruesAt.of_eq
    {other : Parse α}
    (hApply : step cursor = other cursor)
    (hOther : other.ConstruesAt cursor right) :
    step.ConstruesAt cursor right := by
  unfold ConstruesAt Ends at hOther ⊢
  rwa [hApply]

/- What was looked for at a place does not matter. -/
theorem ConstruesAt.of_seeking
    {other : Parse α}
    {kinds : List TokenKind}
    (hApply : step cursor = other (cursor.seeking kinds))
    (hOther : other.ConstruesAt (cursor.seeking kinds) right) :
    step.ConstruesAt cursor right := by
  unfold ConstruesAt Ends at hOther ⊢
  rw [hApply]
  split
  · rename_i result after hOk
    rw [hOk] at hOther
    rcases hOther with ⟨tokens, hPasses, hRight⟩
    exact ⟨tokens, ⟨hPasses.rest, hPasses.last⟩, hRight⟩
  · trivial

/-
  After some tokens a step fails, or what it gives is right
  for these tokens together with those that it takes.
-/
def ConstruesAfter
    (before : List Token)
    (step : Parse α)
    (right : List Token → α → Prop) : Prop :=
  ∀ cursor, cursor.Closed →
    (∀ last ∈ before.getLast?, cursor.previous = last) →
    step.ConstruesAt cursor fun more => right (before ++ more)

/- A token that is taken comes before those that are taken after it. -/
theorem ConstruesAt.takes
    {next : Token → Parse α}
    (hClosed : cursor.Closed)
    (hKind : cursor.current.kind ≠ .endOfInput)
    (hNext :
      (next cursor.current).ConstruesAt cursor.next
        fun more => right ([cursor.current] ++ more)) :
    (Parse.advance >>= next).ConstruesAt cursor right := by
  rw [ConstruesAt, ends_bind, ends_advance]
  refine Ends.mono hNext ?_ fun _ hFailed => hFailed
  rintro result after ⟨more, hMore, hResult⟩
  exact ⟨_, (Cursor.Passes.next hClosed hKind).trans hMore, hResult⟩

/- A token that is taken is the last one before what follows. -/
theorem ConstruesAt.advance
    {next : Token → Parse α}
    (hClosed : cursor.Closed)
    (hKind : cursor.current.kind ≠ .endOfInput)
    (hNext :
      ConstruesAfter (before ++ [cursor.current])
        (next cursor.current) right) :
    (Parse.advance >>= next).ConstruesAt cursor
      fun more => right (before ++ more) := by
  have hPrevious :
      ∀ last ∈ (before ++ [cursor.current]).getLast?,
        cursor.next.previous = last := by
    intro last hLast
    rw [List.getLast?_concat] at hLast
    rw [← (Cursor.Passes.next hClosed hKind).last]
    exact Option.some.inj hLast
  refine .takes hClosed hKind ?_
  refine (hNext cursor.next hClosed.next hPrevious).mono
    fun more result hRight => ?_
  rwa [List.append_assoc] at hRight

/- A first token is taken, after which a step is right. -/
theorem ConstruesAt.first
    {next : Token → Parse α}
    (hClosed : cursor.Closed)
    (hKind : cursor.current.kind ≠ .endOfInput)
    (hNext :
      ConstruesAfter [cursor.current] (next cursor.current) right) :
    (Parse.advance >>= next).ConstruesAt cursor right := by
  have hNone :
      ConstruesAfter ([] ++ [cursor.current]) (next cursor.current)
        right :=
    hNext
  exact .advance hClosed hKind hNone

/- What follows a step comes after the tokens that it takes. -/
theorem ConstruesAt.bind
    {first : Parse β}
    {next : β → Parse α}
    {between : List Token → β → Prop}
    (hClosed : cursor.Closed)
    (hPrevious : ∀ last ∈ before.getLast?, cursor.previous = last)
    (hFirst :
      first.ConstruesAt cursor fun more => between (before ++ more))
    (hNext :
      ∀ tokens result, between tokens result →
        ConstruesAfter tokens (next result) right) :
    (first >>= next).ConstruesAt cursor
      fun more => right (before ++ more) := by
  rw [ConstruesAt, ends_bind]
  refine Ends.mono hFirst ?_ fun _ hFailed => hFailed
  rintro result middle ⟨tokens, hTokens, hResult⟩
  have hMiddle :
      ∀ last ∈ (before ++ tokens).getLast?,
        middle.previous = last := by
    intro last hLast
    rw [List.getLast?_append] at hLast
    rw [← hTokens.last, List.getLastD_eq_getLast?]
    cases hSome : tokens.getLast? with
    | none =>
        rw [hSome, Option.none_or] at hLast
        exact hPrevious last hLast
    | some token =>
        rw [hSome, Option.some_or] at hLast
        exact Option.some.inj hLast
  refine Ends.mono
    (hNext _ result hResult middle
      (hClosed.of_suffix hTokens.suffix) hMiddle) ?_
    fun _ hFailed => hFailed
  rintro last after ⟨more, hMore, hLast⟩
  refine ⟨tokens ++ more, hTokens.trans hMore, ?_⟩
  rwa [← List.append_assoc]

/- Whatever came before, a step is right for what it takes. -/
theorem Construes.of_after
    (hStep : ConstruesAfter [] step right) :
    Construes step right :=
  fun cursor hClosed => hStep cursor hClosed (by simp)

namespace ConstruesAfter

theorem pure
    {result : α}
    (hRight : right before result) :
    ConstruesAfter before (Pure.pure result) right := by
  refine fun cursor _ _ => ⟨[], .refl cursor, ?_⟩
  rwa [← List.append_nil before] at hRight

theorem unexpected :
    ConstruesAfter before (Parse.unexpected : Parse α) right :=
  fun _ _ _ => trivial

/- What one step after another takes are the tokens of both. -/
theorem bind
    {first : Parse β}
    {next : β → Parse α}
    {between : List Token → β → Prop}
    (hFirst : Construes first between)
    (hNext :
      ∀ tokens result, between tokens result →
        ConstruesAfter (before ++ tokens) (next result) right) :
    ConstruesAfter before (first >>= next) right := by
  intro cursor hClosed hPrevious
  let whole : List Token → β → Prop := fun tokens result =>
    ∃ taken, tokens = before ++ taken ∧ between taken result
  have hWhole :
      first.ConstruesAt cursor fun more => whole (before ++ more) :=
    (hFirst cursor hClosed).mono fun tokens result hResult =>
      ⟨tokens, rfl, hResult⟩
  refine .bind hClosed hPrevious hWhole ?_
  rintro _ result ⟨taken, rfl, hResult⟩
  exact hNext taken result hResult

theorem get
    {next : Cursor → Parse α}
    (hNext : ∀ cursor, ConstruesAfter before (next cursor) right) :
    ConstruesAfter before (MonadState.get >>= next) right :=
  fun cursor hClosed hPrevious =>
    hNext cursor cursor hClosed hPrevious

/- Looking for a kind takes nothing. -/
theorem check
    {kind : TokenKind}
    {next : Bool → Parse α}
    (hNext : ∀ found, ConstruesAfter before (next found) right) :
    ConstruesAfter before (Parse.check kind >>= next) right :=
  fun cursor hClosed hPrevious =>
    .of_seeking (check_bind_apply kind next cursor)
      (hNext _ (cursor.seeking [kind]) hClosed hPrevious)

/- A token that is looked for is taken, or reading goes on without it. -/
theorem test
    {kind : TokenKind}
    {taken : Token → Parse α}
    {other : Parse α}
    (hEnd : kind ≠ .endOfInput)
    (hTaken :
      ∀ token, token.kind = kind →
        ConstruesAfter (before ++ [token]) (taken token) right)
    (hOther : ConstruesAfter before other right) :
    ConstruesAfter before (Parse.test kind taken other) right := by
  intro cursor hClosed hPrevious
  by_cases hKind : cursor.current.kind = kind
  · refine .of_eq ?_
      (.advance hClosed (hKind ▸ hEnd) (hTaken cursor.current hKind))
    rw [test_of_eq hKind, advance_bind_apply]
  · exact .of_seeking (test_of_ne hKind)
      (hOther (cursor.seeking [kind]) hClosed hPrevious)

/- A token that is expected is taken. -/
theorem expect
    {kind : TokenKind}
    {taken : Token → Parse α}
    (hEnd : kind ≠ .endOfInput)
    (hTaken :
      ∀ token, token.kind = kind →
        ConstruesAfter (before ++ [token]) (taken token) right) :
    ConstruesAfter before
      (Parse.test kind taken Parse.unexpected) right :=
  test hEnd hTaken unexpected

/- One of two signs is taken. -/
theorem either
    {kind other : TokenKind}
    {next : Parse α}
    (hEnd : kind ≠ .endOfInput ∧ other ≠ .endOfInput)
    (hNext :
      ∀ token : Token, token.kind = kind ∨ token.kind = other →
        ConstruesAfter (before ++ [token]) next right) :
    ConstruesAfter before (Parse.either kind other next) right :=
  test hEnd.1 (fun token hKind => hNext token (.inl hKind))
    (expect hEnd.2 fun token hKind => hNext token (.inr hKind))

theorem optional
    {kind : TokenKind}
    {next : Parse α}
    (hEnd : kind ≠ .endOfInput)
    (hTaken :
      ∀ token : Token, token.kind = kind →
        ConstruesAfter (before ++ [token]) next right)
    (hNext : ConstruesAfter before next right) :
    ConstruesAfter before (Parse.optional kind next) right :=
  test hEnd hTaken hNext

/- Two tokens ahead only decide how reading goes on. -/
theorem lookahead
    {ahead : Token → TokenKind → Bool}
    {first : Token → Parse α}
    {second : Parse α}
    (hFirst : ∀ token, ConstruesAfter before (first token) right)
    (hSecond : ConstruesAfter before second right) :
    ConstruesAfter before (Parse.lookahead ahead first second)
      right := by
  intro cursor hClosed hPrevious
  cases hAhead : ahead cursor.current cursor.following.kind with
  | true =>
      exact .of_eq (lookahead_of_ahead hAhead)
        (hFirst cursor.current cursor hClosed hPrevious)
  | false =>
      exact .of_eq (lookahead_of_not_ahead hAhead)
        (hSecond cursor hClosed hPrevious)

/- A node is marked with the span up to the last token taken. -/
theorem spanned
    {start : Span}
    {mark : Span → α}
    (hBefore : before ≠ [])
    (hRight : right before (mark (start.through (.ofTokens before)))) :
    ConstruesAfter before
      (spanFrom start >>= fun span => Pure.pure (mark span))
      right := by
  intro cursor _ hPrevious
  refine ⟨[], .refl cursor, ?_⟩
  rcases List.exists_cons_of_ne_nil hBefore with ⟨first, more, rfl⟩
  have hLast := hPrevious (more.getLastD first) (by
    rw [List.getLast?_cons, List.getLastD_eq_getLast?]
    rfl)
  rw [List.append_nil, hLast]
  exact hRight

/- A last token is taken, and a node marked with the span up to it. -/
theorem spannedLast
    {start : Span}
    {last : Token}
    {mark : Span → α}
    (hRight :
      right (before ++ [last]) (mark (start.through last.span))) :
    ConstruesAfter (before ++ [last])
      (spanFrom start >>= fun span => Pure.pure (mark span))
      right := by
  intro cursor _ hPrevious
  refine ⟨[], .refl cursor, ?_⟩
  rw [← List.append_nil (before ++ [last])] at hRight
  rwa [hPrevious last (by simp)]

/- A connective is taken where there is one. -/
theorem afterConnective
    {word : Text}
    {next : Parse α}
    (hTaken :
      ∀ token : Token, token.kind = .identifier →
        token.text = word →
        ConstruesAfter (before ++ [token]) next right)
    (hNext : ConstruesAfter before next right) :
    ConstruesAfter before (Production.afterConnective word next)
      right := by
  intro cursor hClosed hPrevious
  cases hAhead :
      Production.isConnective word cursor.current
        cursor.following.kind with
  | false =>
      exact .of_eq (lookahead_of_not_ahead hAhead)
        (hNext cursor hClosed hPrevious)
  | true =>
      have hName := (Production.name_of_isConnective hAhead).1
      have hWord : cursor.current.text = word := by
        simp only [Production.isConnective, Bool.and_eq_true,
          decide_eq_true_eq] at hAhead
        exact hAhead.1.2
      exact .of_eq (lookahead_of_ahead hAhead)
        (.advance hClosed (by simp [hName])
          (hTaken cursor.current hName hWord))

/- An arrow or a connective is taken where there is one. -/
theorem afterThen
    {next : Parse α}
    (hTaken :
      ∀ token : Token,
        token.kind = .fatArrow ∨
          (token.kind = .identifier ∧ token.text = "then") →
        ConstruesAfter (before ++ [token]) next right)
    (hNext : ConstruesAfter before next right) :
    ConstruesAfter before (Production.afterThen next) right :=
  test (by decide) (fun token hKind => hTaken token (.inl hKind))
    (afterConnective
      (fun token hName hWord => hTaken token (.inr ⟨hName, hWord⟩))
      hNext)

end ConstruesAfter

end Parse

------------------------------------------------------------
-- Lists Of Expressions
------------------------------------------------------------

namespace Production

open Parse

variable {strict : Bool}
variable {expression : ExpressionReader}
variable
  (hExpression :
    ∀ power,
      Construes (expression power) (Encloses strict))

include hExpression

theorem construes_commaSeparated (fuel : Nat) :
    Construes (commaSeparated expression fuel)
      fun tokens nodes =>
        Segment strict tokens (nodes.map .part) := by
  induction fuel with
  | zero => exact .of_after .unexpected
  | succ fuel ih =>
      rw [commaSeparated_succ]
      refine .of_after (.bind (hExpression 0) fun tokens first hFirst =>
        .test (by decide) (fun comma hComma => ?_) (.pure hFirst))
      have hSign : Segment strict [comma] [] :=
        .sign (by rw [hComma]; rfl)
      exact .bind ih fun rest nodes hRest =>
        .pure ((hFirst.append hSign).append hRest)

/- Items between brackets are an array. -/
theorem construesAt_array
    {cursor : Cursor}
    (hClosed : cursor.Closed)
    (hKind : cursor.current.kind = .leftBracket) :
    (array expression).ConstruesAt cursor (Encloses strict) := by
  have hArray :
      ∀ {tokens : List Token} {closing : Token}
        {nodes : List (Node Span)},
        closing.kind = .rightBracket →
        Segment strict tokens (nodes.map .part) →
        Segment strict (cursor.current :: (tokens ++ [closing]))
          [.part
            (.array nodes
              (.ofTokens
                (cursor.current :: (tokens ++ [closing]))))] :=
    fun hClosing hTokens =>
      (hTokens.group (by rw [hKind, hClosing]; rfl)).node
        (List.cons_ne_nil _ _) rfl rfl
  rw [array_eq]
  refine .first hClosed (by simp [hKind]) ?_
  refine .test (by decide) (fun closing hClosing => ?_) (.get fun _ => ?_)
  · exact .spanned (by simp) (hArray hClosing .nil)
  · refine .bind (construes_commaSeparated hExpression _)
      fun tokens nodes hNodes => .expect (by decide)
        fun closing hClosing => ?_
    exact .spanned (by simp) (hArray hClosing hNodes)

------------------------------------------------------------
-- Statements
------------------------------------------------------------

/- A name and a sign before tokens that enclose the value are an assignment. -/
def Assigns
    (strict : Bool)
    (tokens : List Token)
    (node : Node Span) : Prop :=
  ∃ name sign rest value,
    tokens = name :: sign :: rest ∧
      name.kind = .identifier ∧
      node = .assign name.text value (.ofTokens tokens) ∧
      Encloses strict tokens node

theorem construesAt_assignment
    {cursor : Cursor}
    (hClosed : cursor.Closed)
    (hAhead :
      isAssigned cursor.current cursor.following.kind = true) :
    (statement expression).ConstruesAt cursor (Assigns strict) := by
  rw [statement_eq]
  rcases name_of_isAssigned hAhead with ⟨hName, hEnd⟩
  have hKind : cursor.current.kind ≠ .endOfInput := by
    simp [hName]
  have hFollowing := hClosed.current_next hKind
  have hSign : Segment strict [cursor.next.current] [] := by
    refine .sign ?_
    rw [hFollowing]
    simp only [isAssigned, assigns, Bool.and_eq_true,
      Bool.or_eq_true, decide_eq_true_eq] at hAhead
    rcases hAhead.2 with hAssign | hArrow
    · rw [hAssign]
      rfl
    · rw [hArrow]
      rfl
  have hFront : Segment strict [cursor.current] [.name _] :=
    .name hName
  refine .of_eq (lookahead_of_ahead hAhead) ?_
  refine .takes hClosed hKind
    (.advance hClosed.next (by rwa [hFollowing]) ?_)
  refine .bind (hExpression 0) fun tokens value hValue =>
    .spanned (by simp) ?_
  exact
    ⟨_, _, _, value, rfl, hName, rfl,
      ((hFront.append hSign).append hValue).node
        (by simp) rfl rfl⟩

theorem construes_statement :
    Construes (statement expression) (Encloses strict) := by
  intro cursor hClosed
  cases hAhead :
      isAssigned cursor.current cursor.following.kind with
  | false =>
      rw [statement_eq]
      exact .of_eq (lookahead_of_not_ahead hAhead)
        (hExpression 0 cursor hClosed)
  | true =>
      exact (construesAt_assignment hExpression hClosed hAhead).mono
        fun tokens node ⟨_, _, _, _, _, _, _, hNode⟩ => hNode

omit hExpression in
/- Statements are taken one after the other. -/
theorem construes_statements
    {good : List Token → Node Span → Prop}
    (hStatement : Construes (statement expression) good)
    (close : TokenKind)
    (fuel : Nat) :
    Construes (statements expression close fuel) (Pieces good) := by
  induction fuel with
  | zero => exact .of_after .unexpected
  | succ fuel ih =>
      rw [← bind_pure (statements expression close (fuel + 1)),
        statements_bind]
      refine .of_after (.check fun closed => ?_)
      split
      · exact .pure .nil
      refine .bind hStatement fun tokens first hFirst => ?_
      have hMore :
          ∀ {semicolons : List Token},
            (∀ token ∈ semicolons, token.kind = .semicolon) →
            ConstruesAfter (tokens ++ semicolons)
              (do
                let rest ← statements expression close fuel
                pure (first :: rest))
              (Pieces good) := by
        intro semicolons hSemicolons
        refine .bind ih fun rest nodes hRest => .pure ?_
        rw [List.append_assoc]
        exact .cons hFirst hSemicolons hRest
      have hNone := hMore (List.forall_mem_nil _)
      rw [List.append_nil] at hNone
      have hLast : Pieces good tokens [first] := by
        rw [← List.append_nil tokens]
        exact .cons hFirst (List.forall_mem_nil _) .nil
      refine .test (by decide) (fun semicolon hSemicolon => ?_)
        (.check fun ended => ?_)
      · exact hMore (by simpa using hSemicolon)
      · split
        · exact .pure hLast
        · refine .get fun cursor => ?_
          split
          · exact hNone
          · exact .unexpected

/- Statements between braces are a block. -/
theorem construesAt_block
    {cursor : Cursor}
    (hClosed : cursor.Closed)
    (hKind : cursor.current.kind = .leftBrace) :
    (block expression).ConstruesAt cursor (Encloses strict) := by
  refine .first hClosed (by simp [hKind]) (.get fun _ => ?_)
  refine .bind
    (construes_statements (construes_statement hExpression) _ _)
    fun tokens nodes hNodes => ?_
  rw [expect_bind]
  refine .expect (by decide) fun closing hClosing =>
    .spanned (by simp) ?_
  exact (hNodes.segment.group (by rw [hKind, hClosing]; rfl)).node
    (List.cons_ne_nil _ _) rfl rfl

------------------------------------------------------------
-- Calls And Indices
------------------------------------------------------------

/- Named arguments are taken one after the other and set in this order. -/
theorem construes_namedArguments
    (fuel : Nat)
    (earlier : Fields (Node Span)) :
    Construes (namedArguments expression fuel earlier)
      fun tokens fields =>
        ∃ arguments : List (Text × Node Span),
          fields =
              arguments.foldl
                (fun fields argument =>
                  fields.set argument.1 argument.2) earlier ∧
            Segment strict tokens (Entry.named arguments) ∧
            NamesArguments tokens (arguments.map Prod.fst) := by
  induction fuel generalizing earlier with
  | zero => exact .of_after .unexpected
  | succ fuel ih =>
      rw [namedArguments_succ]
      refine .of_after (.expect (by decide) fun name hName => ?_)
      refine .either (by decide) fun sign hSign => ?_
      refine .bind (hExpression 0) fun tokens value hValue => ?_
      have hPlain : Segment strict [sign] [] := by
        refine .sign ?_
        rcases hSign with hColon | hAssign
        · rw [hColon]
          rfl
        · rw [hAssign]
          rfl
      have hFirst : Segment strict [name] [.name name.text] :=
        .name hName
      have hArgument := (hFirst.append hPlain).append hValue
      refine .test (by decide) (fun comma hComma => ?_)
        (.pure ⟨[(name.text, value)], rfl, hArgument,
          .last hName hSign hValue.balanced⟩)
      have hSeparator : Segment strict [comma] [] :=
        .sign (by rw [hComma]; rfl)
      rw [← bind_pure (namedArguments expression fuel _)]
      refine .bind (ih _) fun rest fields hRest => .pure ?_
      rcases hRest with ⟨arguments, hFields, hSegment, hNames⟩
      have hTaken :
          [] ++ [name] ++ [sign] ++ tokens ++ [comma] ++ rest =
            name :: sign :: (tokens ++ comma :: rest) := by
        simp
      have hAll := (hArgument.append hSeparator).append hSegment
      rw [hTaken]
      refine
        ⟨(name.text, value) :: arguments, hFields, ?_,
          .more hName hSign hValue.balanced hComma hNames⟩
      rw [← hTaken]
      exact hAll

/- A name and arguments between parentheses are a call. -/
theorem construesAt_call
    {cursor : Cursor}
    {before : List Token}
    {name : Text}
    {span : Span}
    (hClosed : cursor.Closed)
    (hKind : cursor.current.kind = .leftParen)
    (hBase : Encloses strict before (.variable name span)) :
    (call expression name span).ConstruesAt cursor
      fun more => Encloses strict (before ++ more) := by
  rw [call_eq]
  refine .advance hClosed (by simp [hKind]) ?_
  refine .test (by decide) (fun closing hClosing => ?_)
    (.lookahead (fun _ => .get fun _ => ?_) (.get fun _ => ?_))
  · refine .spannedLast ?_
    have hCall :=
      hBase.callNamed hKind (.nil : Segment strict [] []) (.inl rfl)
        hClosing
    rwa [List.append_assoc]
  · refine .bind (construes_namedArguments hExpression _ _)
      fun tokens fields hFields => .expect (by decide)
        fun closing hClosing => .spannedLast ?_
    rcases hFields with ⟨arguments, rfl, hArguments, hNames⟩
    have hCall :=
      hBase.callNamed hKind hArguments (.inr hNames) hClosing
    rwa [List.append_assoc, List.append_assoc]
  · refine .bind (construes_commaSeparated hExpression _)
      fun tokens nodes hNodes => .expect (by decide)
        fun closing hClosing => .spannedLast ?_
    have hCall := hBase.call hKind hNodes hClosing
    rwa [List.append_assoc, List.append_assoc]

/- An index between brackets is taken of what comes before. -/
theorem construesAt_index
    {cursor : Cursor}
    {before : List Token}
    {base : Node Span}
    (hClosed : cursor.Closed)
    (hKind : cursor.current.kind = .leftBracket)
    (hBase : Encloses strict before base) :
    (index expression base).ConstruesAt cursor
      fun more => Encloses strict (before ++ more) := by
  refine .advance hClosed (by simp [hKind]) ?_
  refine .bind (hExpression 0) fun tokens position hPosition => ?_
  rw [expect_bind]
  refine .expect (by decide) fun closing hClosing =>
    .spannedLast ?_
  have hIndex := hBase.index hKind hPosition hClosing
  rwa [List.append_assoc, List.append_assoc]

------------------------------------------------------------
-- Switches And If-Chains
------------------------------------------------------------

/- Cases are taken, and the closing brace after them. -/
theorem construesAfter_cases
    {α : Type}
    {before : List Token}
    {follow : List (Case Span) → Parse α}
    {right : List Token → α → Prop}
    (fuel : Nat)
    (hFollow :
      ∀ tokens cases closing,
        Segment strict tokens
          ((cases.flatMap Case.parts).map .part) →
        closing.kind = .rightBrace →
        ConstruesAfter (before ++ (tokens ++ [closing]))
          (follow cases) right) :
    ConstruesAfter before
      (cases expression fuel >>= fun inner =>
        advance >>= fun _ => follow inner) right := by
  induction fuel generalizing before follow with
  | zero => exact .unexpected
  | succ fuel ih =>
      rw [cases_bind, check_advance_bind]
      have hRest :
          ∀ {taken : List Token} {guard result : Node Span},
            Segment strict taken [.part guard, .part result] →
            ConstruesAfter (before ++ taken)
              (cases expression fuel >>= fun rest =>
                advance >>= fun _ =>
                  follow (.mk guard result :: rest)) right := by
        intro taken guard result hTaken
        refine ih fun tokens cases closing hCases hClosing => ?_
        have hAll :=
          hFollow (taken ++ tokens) (.mk guard result :: cases)
            closing (hTaken.append hCases) hClosing
        rwa [List.append_assoc taken, ← List.append_assoc before]
          at hAll
      have hGuard :
          ∀ {taken : List Token},
            Segment strict taken [] →
            ConstruesAfter (before ++ taken)
              (do
                let guard ← expression 0
                either .colon .fatArrow do
                  let result ← expression 0
                  optional .semicolon do
                    let rest ← cases expression fuel
                    let _ ← advance
                    follow (.mk guard result :: rest)) right := by
        intro taken hTaken
        refine .bind (hExpression 0) fun tokens guard hGuard => ?_
        refine .either (by decide) fun arrow hArrow => ?_
        refine .bind (hExpression 0) fun others result hResult => ?_
        have hPlain : Segment strict [arrow] [] := by
          refine .sign ?_
          rcases hArrow with hColon | hFatArrow
          · rw [hColon]
            rfl
          · rw [hFatArrow]
            rfl
        have hCase :=
          ((hTaken.append hGuard).append hPlain).append hResult
        simp only [List.append_assoc] at hCase ⊢
        refine .optional (by decide) (fun semicolon hSemicolon => ?_)
          (hRest hCase)
        have hSign : Segment strict [semicolon] [] :=
          .sign (by rw [hSemicolon]; rfl)
        have hEnded := hCase.append hSign
        simp only [List.append_assoc] at hEnded ⊢
        exact hRest hEnded
      refine .test (by decide)
        (fun closing hClosing => hFollow [] [] closing .nil hClosing)
        (.afterConnective (fun token hName hWord =>
          hGuard (.connective ⟨hName, .inl hWord⟩)) ?_)
      have hNone := hGuard (.nil : Segment strict [] [])
      rwa [List.append_nil] at hNone

/- A switch has its cases between braces. -/
theorem construesAt_switch
    {cursor : Cursor}
    (hClosed : cursor.Closed)
    (hKind : cursor.current.kind = .switchWord) :
    (switch expression).ConstruesAt cursor (Encloses strict) := by
  rw [switch_eq]
  refine .first hClosed (by simp [hKind]) ?_
  refine .expect (by decide) fun opening hOpening => .get fun _ => ?_
  refine construesAfter_cases hExpression _
    fun tokens cases closing hCases hClosing => .spanned (by simp) ?_
  have hWord : Segment strict [cursor.current] [] :=
    .sign (by rw [hKind]; rfl)
  have hGroup : Segment strict (opening :: (tokens ++ [closing])) _ :=
    hCases.group (by rw [hOpening, hClosing]; rfl)
  exact (hWord.append hGroup).node (by simp) rfl rfl

/- The steps of an if-chain after the first `if`. -/
theorem construes_branches (fuel : Nat) :
    Construes (branches expression fuel)
      fun tokens steps =>
        Segment strict tokens
          ((steps.flatMap Branch.parts).map .part) := by
  induction fuel with
  | zero => exact .of_after .unexpected
  | succ fuel ih =>
      rw [branches_succ]
      refine .of_after (.expect (by decide) fun opening hOpening => ?_)
      refine .bind (hExpression 0) fun tokens guard hGuard => ?_
      refine .expect (by decide) fun closing hClosing => ?_
      have hTest :
          Segment strict (opening :: (tokens ++ [closing]))
            [.part guard] :=
        hGuard.group (by rw [hOpening, hClosing]; rfl)
      have hStep :
          ∀ {before : List Token},
            Segment strict before [.part guard] →
            ConstruesAfter before
              (do
                let first := Branch.test guard (← expression 0)
                test .elseWord
                  (fun _ =>
                    test .ifWord
                      (fun _ => do
                        return first :: (← branches expression fuel))
                      (do
                        return [first,
                          .otherwise (← expression 0)]))
                  (return [first]))
              fun tokens steps =>
                Segment strict tokens
                  ((steps.flatMap Branch.parts).map .part) := by
        intro before hBefore
        refine .bind (hExpression 0) fun others consequence hFirst => ?_
        have hBranch := hBefore.append hFirst
        refine .test (by decide) (fun word hWord => ?_) (.pure hBranch)
        have hElse : Segment strict [word] [] :=
          .sign (by rw [hWord]; rfl)
        refine .test (by decide) (fun next hNext => ?_) ?_
        · have hIf : Segment strict [next] [] :=
            .sign (by rw [hNext]; rfl)
          exact .bind ih fun rest steps hSteps =>
            .pure (((hBranch.append hElse).append hIf).append hSteps)
        · exact .bind (hExpression 0) fun rest last hLast =>
            .pure ((hBranch.append hElse).append hLast)
      refine .afterThen (fun token hThen => ?_) (hStep hTest)
      refine hStep (hTest.append (?_ : Segment strict [token] []))
      rcases hThen with hArrow | ⟨hName, hWord⟩
      · exact .sign (by rw [hArrow]; rfl)
      · exact .connective ⟨hName, .inr hWord⟩

------------------------------------------------------------
-- Operands
------------------------------------------------------------

/- A sign or a word before an expression makes a node of it. -/
theorem construesAt_prefixed
    {cursor : Cursor}
    {power : Nat}
    {make : Node Span → Span → Node Span}
    (hClosed : cursor.Closed)
    (hEnd : cursor.current.kind ≠ .endOfInput)
    (hKind : cursor.current.kind.isSign = true)
    (hEntries :
      ∀ node span, (make node span).entries? = some [.part node])
    (hMark : ∀ node span, (make node span).mark? = some span) :
    (do
      let sign ← advance
      let node ← expression power
      return make node (← spanFrom sign.span) :
        Parse (Node Span)).ConstruesAt cursor (Encloses strict) := by
  refine .first hClosed hEnd ?_
  refine .bind (hExpression power) fun tokens node hNode =>
    .spanned (by simp) ?_
  have hSign : Segment strict [cursor.current] [] := .sign hKind
  exact (hSign.append hNode).node (by simp) (hEntries _ _) (hMark _ _)

/- Parentheses around an expression leave no trace in its node. -/
theorem construesAt_parenthesised
    {cursor : Cursor}
    (hClosed : cursor.Closed)
    (hKind : cursor.current.kind = .leftParen) :
    (parenthesised expression).ConstruesAt cursor
      (Encloses strict) := by
  refine .first hClosed (by simp [hKind]) ?_
  refine .bind (hExpression 0) fun tokens node hNode => ?_
  rw [expect_bind]
  exact .expect (by decide) fun closing hClosing =>
    .pure (hNode.group (by rw [hKind, hClosing]; rfl))

/- An if-chain begins with its word. -/
theorem construesAt_ifChain
    {cursor : Cursor}
    (hClosed : cursor.Closed)
    (hKind : cursor.current.kind = .ifWord) :
    (ifChain expression).ConstruesAt cursor (Encloses strict) := by
  refine .first hClosed (by simp [hKind]) (.get fun _ => ?_)
  refine .bind (construes_branches hExpression _)
    fun tokens steps hSteps => .spanned (by simp) ?_
  have hWord : Segment strict [cursor.current] [] :=
    .sign (by rw [hKind]; rfl)
  exact (hWord.append hSteps).node (by simp) rfl rfl

omit hExpression in
theorem construesAt_constant
    {cursor : Cursor}
    {value : Value}
    (hClosed : cursor.Closed)
    (hConstant : cursor.current.constant? = some value)
    (hKind : cursor.current.kind ≠ .endOfInput)
    (hPlain : cursor.current.kind.isBracket = false) :
    (constant value).ConstruesAt cursor (Encloses strict) :=
  .first hClosed hKind
    (.pure (.of_forms (.constant hConstant) (.plain hPlain)))

omit hExpression in
theorem construesAt_embedded
    {cursor : Cursor}
    (hClosed : cursor.Closed)
    (hKind : cursor.current.kind = .at) :
    (embedded strict).ConstruesAt cursor (Encloses strict) := by
  refine .first hClosed (by simp [hKind]) ?_
  refine .bind (Embedded.construes_value strict _)
    fun tokens value hValue => .spanned (by simp) ?_
  exact .of_forms (.embedded hKind hValue)
    (.cons (by rw [hKind]; rfl) hValue.balanced)

theorem construes_operand :
    Construes (operand strict expression) (Encloses strict) := by
  intro cursor hClosed
  rw [operand, ConstruesAt, ends_bind, ends_current]
  split
  case h_1 hKind =>
    exact construesAt_prefixed hExpression hClosed (by simp [hKind])
      (by rw [hKind]; rfl) (fun _ _ => rfl) fun _ _ => rfl
  case h_2 hKind =>
    exact construesAt_prefixed hExpression hClosed (by simp [hKind])
      (by rw [hKind]; rfl) (fun _ _ => rfl) fun _ _ => rfl
  case h_8 hKind =>
    refine ConstruesAt.first hClosed (by simp [hKind]) (.pure ?_)
    exact .of_forms (.variable hKind) (.plain (by rw [hKind]; rfl))
  case h_9 hKind =>
    exact construesAt_parenthesised hExpression hClosed hKind
  case h_10 hKind => exact construesAt_array hExpression hClosed hKind
  case h_11 hKind => exact construesAt_block hExpression hClosed hKind
  case h_12 hKind => exact construesAt_embedded hClosed hKind
  case h_13 hKind =>
    exact construesAt_switch hExpression hClosed hKind
  case h_14 hKind =>
    exact construesAt_ifChain hExpression hClosed hKind
  case h_15 hKind =>
    exact construesAt_prefixed hExpression hClosed (by simp [hKind])
      (by rw [hKind]; rfl) (fun _ _ => rfl) fun _ _ => rfl
  case h_16 => trivial
  all_goals
    rename_i hKind
    refine construesAt_constant hClosed ?_ (by simp [hKind])
      (by rw [hKind]; rfl)
    simp [Token.constant?, hKind]

------------------------------------------------------------
-- Operators
------------------------------------------------------------

omit hExpression in
/- What can be called is the name of a variable. -/
theorem eq_variable_of_callee?
    {node : Node Span}
    {name : Text}
    {span : Span}
    (hCallee : callee? node = some (name, span)) :
    node = .variable name span := by
  cases node <;> cases hCallee
  rfl

/-
  An expression goes on with an index, a call or an operator
  and its right operand, each put together with what is there,
  or it ends.
-/
theorem construesAfter_operators
    {before : List Token}
    {chain : Chain}
    (power fuel : Nat)
    (hChain : Encloses strict before chain.node) :
    ConstruesAfter before (operators expression power fuel chain)
      (Encloses strict) := by
  induction fuel generalizing before chain with
  | zero => exact .unexpected
  | succ fuel ih =>
      intro cursor hClosed hPrevious
      let place := cursor.seeking (continuations chain.node)
      have hPlace : place.Closed := hClosed
      have hMore :
          ∀ tokens node, Encloses strict tokens node →
            ConstruesAfter tokens
              (operators expression power fuel ⟨node, none⟩)
              (Encloses strict) :=
        fun tokens node hNode => ih hNode
      rcases continues_or_stops power chain.node
          cursor.current.kind with
        ⟨hIndex, hBound⟩ | ⟨hParen, hBound, name, span, hCallee⟩ |
          ⟨found, hLevel, hPower⟩ | hStops
      · exact .of_seeking (operators_of_index hIndex hBound fuel)
          (.bind hPlace hPrevious
            (construesAt_index hExpression hPlace hIndex hChain)
            hMore)
      · rw [eq_variable_of_callee? hCallee] at hChain
        exact .of_seeking
          (operators_of_call hParen hBound hCallee fuel)
          (.bind hPlace hPrevious
            (construesAt_call hExpression hPlace hParen hChain)
            hMore)
      · have hEnd : cursor.current.kind ≠ .endOfInput := by
          intro hKind
          rw [hKind] at hLevel
          cases hLevel
        have hApply :
            operators expression power (fuel + 1) chain cursor =
              (do
                let sign ← advance
                let right ← expression (2 * found)
                operators expression power fuel
                  (chain.combine sign.kind right)) cursor :=
          operators_of_level hLevel hPower fuel
        refine .of_eq hApply (.advance hClosed hEnd ?_)
        exact .bind (hExpression _) fun tokens right hRight =>
          ih (hChain.combine (TokenKind.isSign_of_level? hLevel)
            hRight)
      · exact .of_seeking (operators_of_stops hStops fuel)
          (ConstruesAfter.pure hChain place hPlace hPrevious)

end Production

------------------------------------------------------------
-- Expressions And Scripts
------------------------------------------------------------

open Parse

/- An expression that is read is formed from the tokens taken. -/
theorem construes_expression
    (strict : Bool)
    (depth power : Nat) :
    Construes (expression strict depth power)
      (Encloses strict) := by
  induction depth generalizing power with
  | zero => exact .tooDeep _
  | succ depth ih =>
      unfold expression
      exact .of_after
        (.bind (Production.construes_operand ih)
          fun tokens first hFirst => .get fun cursor =>
            Production.construesAfter_operators ih power _ hFirst)

/- What holds wherever a step ends holds of how it ends. -/
theorem Parse.Ends.of_forall
    {α : Type}
    {done : α → Cursor → Prop}
    (step : Parse α)
    (cursor : Cursor)
    (hDone : ∀ result after, done result after) :
    step.Ends cursor done fun _ => True := by
  unfold Ends
  split
  · exact hDone _ _
  · trivial

theorem Parse.ends_test
    {α : Type}
    {kind : TokenKind}
    {taken : Token → Parse α}
    {other : Parse α}
    {cursor : Cursor}
    {done : α → Cursor → Prop}
    {failed : SyntaxError → Prop} :
    (test kind taken other).Ends cursor done failed ↔
      if cursor.current.kind = kind then
        (taken cursor.current).Ends cursor.next done failed
      else other.Ends (cursor.seeking [kind]) done failed := by
  unfold Ends
  by_cases hKind : cursor.current.kind = kind
  · rw [test_of_eq hKind, if_pos hKind]
  · rw [test_of_ne hKind, if_neg hKind]

/- Statements are read up to a closing token. -/
theorem Production.ends_statements
    (expression : ExpressionReader)
    (close : TokenKind)
    (fuel : Nat)
    (cursor : Cursor) :
    (statements expression close fuel).Ends cursor
      (fun _ after => after.current.kind = close)
      fun _ => True := by
  induction fuel generalizing cursor with
  | zero => trivial
  | succ fuel ih =>
      have hMore :
          ∀ (first : Node Span) (place : Cursor),
            (do
              let rest ← statements expression close fuel
              pure (first :: rest)).Ends place
              (fun _ after => after.current.kind = close)
              fun _ => True := by
        intro first place
        rw [ends_bind]
        exact (ih place).mono (fun _ _ hClose => hClose)
          fun _ hFailed => hFailed
      rw [← bind_pure (statements expression close (fuel + 1)),
        statements_bind, ends_bind, ends_check]
      by_cases hClose : cursor.current.kind = close
      · rw [decide_eq_true hClose]
        exact hClose
      rw [decide_eq_false hClose, if_neg Bool.false_ne_true,
        ends_bind]
      refine Ends.of_forall _ _ fun first after => ?_
      rw [ends_test]
      split
      · exact hMore first after.next
      rw [ends_bind, ends_check]
      by_cases hEnd : after.current.kind = close
      · rw [Cursor.current_seeking, decide_eq_true hEnd]
        exact hEnd
      rw [Cursor.current_seeking, decide_eq_false hEnd,
        if_neg Bool.false_ne_true, ends_bind, ends_get]
      split
      · exact hMore first _
      · trivial

/- The tree of a text has the statements of it in a row. -/
theorem pieces_of_parse
    {strict : Bool}
    {text : Text}
    {tokens : List Token}
    {tree : Node Span}
    {good : List Token → Node Span → Prop}
    (hStatement :
      Construes (Production.statement (expression strict maxDepth))
        good)
    (hTokens : tokenize text = .ok tokens)
    (hTree : parse strict text = .ok tree) :
    ∃ body close nodes,
      tokens = body ++ [close] ∧
        close.kind = .endOfInput ∧
        tree = .sequence nodes ⟨.start, close.span.last⟩ ∧
        Pieces good body nodes := by
  have hAll := areClosed_of_tokenize hTokens
  rcases exists_of_parse hTree with ⟨others, hOthers, hScript⟩
  cases hTokens.symm.trans hOthers
  rcases parseTokens_eq_ok_iff.mp hScript with ⟨after, hOk⟩
  rw [script, get_bind_apply] at hOk
  cases hRun :
      Production.statements (expression strict maxDepth) .endOfInput
        (Cursor.start tokens).fuel (Cursor.start tokens) with
  | error error stop =>
      rw [bind_of_error hRun] at hOk
      cases hOk
  | ok nodes stop =>
      rw [bind_of_ok hRun] at hOk
      cases hOk
      have hClosed := hAll.closed_start
      have hClose :=
        (Production.ends_statements _ _ _ _).of_ok hRun
      rcases (Production.construes_statements hStatement _ _).of_ok
          hClosed hRun with ⟨body, hPasses, hPieces⟩
      have hAhead :=
        (hClosed.of_suffix hPasses.suffix).kind_eq_iff.mp hClose
      have hRest := hPasses.rest
      rw [hAll.rest_start, Cursor.rest, hAhead] at hRest
      exact ⟨body, after.current, nodes, hRest, hClose, rfl, hPieces⟩

/- The tree of a text has entries that the text consists of. -/
theorem segment_of_parse
    {strict : Bool}
    {text : Text}
    {tokens : List Token}
    {tree : Node Span}
    (hTokens : tokenize text = .ok tokens)
    (hTree : parse strict text = .ok tree) :
    ∃ body close nodes,
      tokens = body ++ [close] ∧
        close.kind = .endOfInput ∧
        tree = .sequence nodes ⟨.start, close.span.last⟩ ∧
        Segment strict body (nodes.map .part) := by
  have hStatement :=
    Production.construes_statement
      (construes_expression strict maxDepth)
  rcases pieces_of_parse hStatement hTokens hTree with
    ⟨body, close, nodes, hBody, hClose, hRoot, hPieces⟩
  exact ⟨body, close, nodes, hBody, hClose, hRoot, hPieces.segment⟩

end ExperimentScript
