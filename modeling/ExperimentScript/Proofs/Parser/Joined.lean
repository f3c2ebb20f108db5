import ExperimentScript.Proofs.Lexer.Joined
import ExperimentScript.Proofs.Parser.Failing
import ExperimentScript.Proofs.Parser.Moved

/-
  Scripts concatenate.

  A script whose last statement is ended by a semicolon can be
  put before another one. Its statements are read as before,
  since no statement ends where the last token before the end
  is a semicolon. The other script is then read as by itself:
  nothing that came before makes a difference at the beginning
  of a statement.

  Key definitions include:
    * `ExperimentScript.Fork.GoesOn`
    * `ExperimentScript.Cursor.Level`
    * `ExperimentScript.ScriptError.down`
    * `ExperimentScript.ReadBehind`

  Main declarations:
    * `ExperimentScript.Production.statements_apply`
    * `ExperimentScript.Fork.topStatements_join`
    * `ExperimentScript.ending_topStatements`
    * `ExperimentScript.scriptParts_append`
    * `ExperimentScript.parse_append`
-/

namespace ExperimentScript

open Parse

------------------------------------------------------------
-- One Statement After Another
------------------------------------------------------------

theorem Parse.map_apply
    {α β : Type}
    (f : α → β)
    (step : Parse α)
    (cursor : Cursor) :
    (f <$> step) cursor =
      match step cursor with
      | .ok result after => .ok (f result) after
      | .error error after => .error error after := by
  simp only [Functor.map, EStateM.map]
  cases step cursor <;> rfl

/- What is done to the result of a step is done after what the step does. -/
theorem Parse.map_map_apply
    {α β γ : Type}
    {f : α → β}
    {step : Parse α}
    {inner : Parse γ}
    {g : γ → α}
    {cursor other : Cursor}
    (hStep : step cursor = (g <$> inner) other) :
    (f <$> step) cursor = ((fun result => f (g result)) <$> inner) other := by
  rw [map_apply, hStep, map_apply, map_apply]
  cases inner other <;> rfl

theorem Parse.ending_map
    {α β : Type}
    (f : α → β)
    (step : Parse α)
    (cursor : Cursor) :
    (f <$> step).ending cursor =
      match step.ending cursor with
      | .ok (result, token) => .ok (f result, token)
      | .error error => .error error := by
  rw [ending, ending, map_apply]
  cases step cursor <;> rfl

theorem Parse.ending_eq_of_eq
    {α : Type}
    {step inner : Parse α}
    {cursor other : Cursor}
    (hSame : step cursor = inner other) :
    step.ending cursor = inner.ending other := by
  rw [ending, ending, hSame]

/-
  What comes after a statement: a semicolon or a closing brace
  before another one, or the closing token.
-/
theorem Production.statements_apply
    (expression : ExpressionReader)
    (close : TokenKind)
    (fuel : Nat)
    (cursor : Cursor) :
    statements expression close (fuel + 1) cursor =
      if cursor.current.kind = close then
        .ok [] (cursor.seeking [close])
      else
        match statement expression (cursor.seeking [close]) with
        | .error error after => .error error after
        | .ok first after =>
          let more : Parse (List (Node Span)) :=
            (first :: ·) <$> statements expression close fuel
          let last := (after.seeking [.semicolon]).seeking [close]
          if after.current.kind = .semicolon then more after.next
          else if after.current.kind = close then .ok [first] last
          else if after.previous.kind = .rightBrace then more last
          else (unexpected : Parse (List (Node Span))) last := by
  have hBind := statements_bind expression close fuel pure
  rw [bind_pure] at hBind
  rw [hBind, check_bind_apply]
  by_cases hClose : cursor.current.kind = close
  · rw [if_pos hClose, decide_eq_true hClose]
    rfl
  rw [if_neg hClose, decide_eq_false hClose, if_neg Bool.false_ne_true]
  cases hFirst : statement expression (cursor.seeking [close]) with
  | error error after => exact bind_of_error hFirst _
  | ok first after =>
      rw [bind_of_ok hFirst]
      dsimp only
      by_cases hSemicolon : after.current.kind = .semicolon
      · rw [test_of_eq hSemicolon, if_pos hSemicolon]
        rfl
      rw [test_of_ne hSemicolon, if_neg hSemicolon, check_bind_apply]
      by_cases hEnd : after.current.kind = close
      · rw [if_pos hEnd, Cursor.current_seeking, decide_eq_true hEnd]
        rfl
      rw [if_neg hEnd, Cursor.current_seeking, decide_eq_false hEnd,
        if_neg Bool.false_ne_true, get_bind_apply,
        Cursor.previous_seeking, Cursor.previous_seeking]
      by_cases hBrace : after.previous.kind = .rightBrace
      · rw [if_pos hBrace, if_pos hBrace]
        rfl
      · rw [if_neg hBrace, if_neg hBrace]

/- One statement after another, up to the end of a script. -/
theorem topStatements_apply
    (strict : Bool)
    (fuel : Nat)
    (cursor : Cursor) :
    topStatements strict (fuel + 1) cursor =
      if cursor.current.kind = .endOfInput then
        .ok [] (cursor.seeking [.endOfInput])
      else
        match
          Production.statement (expression strict maxDepth)
            (cursor.seeking [.endOfInput])
        with
        | .error error after => .error error after
        | .ok first after =>
          let more : Parse (List (Node Span)) :=
            (first :: ·) <$> topStatements strict fuel
          let last := (after.seeking [.semicolon]).seeking [.endOfInput]
          if after.current.kind = .semicolon then more after.next
          else if after.current.kind = .endOfInput then
            .ok [first] last
          else if after.previous.kind = .rightBrace then more last
          else (unexpected : Parse (List (Node Span))) last :=
  Production.statements_apply _ _ fuel cursor

------------------------------------------------------------
-- The First Script
------------------------------------------------------------

namespace Fork

variable {fork : Fork}
variable {strict : Bool}
variable {place other : Cursor}

/- Before the fork there is more than the last token. -/
theorem Twin.kind_ne_end
    (hTwin : fork.Twin place other)
    (hBefore : place.rest ≠ fork.first) :
    place.current.kind ≠ .endOfInput := by
  intro hKind
  have hAhead := hTwin.closed.kind_eq_iff.mp hKind
  rcases hTwin.fork_or_before with hFork | ⟨-, -, before, hFirst, -⟩
  · exact hBefore hFork.1
  · rw [hAhead] at hFirst
    cases before <;> cases hFirst

/- The fork at which both runs go on as the first one does. -/
def alone (fork : Fork) : Fork :=
  ⟨fork.front, fork.found, fork.back, fork.found, fork.back⟩

/- Before the fork a run is its own twin. -/
theorem Twin.alone
    (hTwin : fork.Twin place other)
    (hBefore : place.rest ≠ fork.first) :
    fork.alone.Twin place place where
  previous := rfl
  sought := rfl
  level :=
    hTwin.level.elim fun before hLevel =>
      ⟨before, hLevel.1, hLevel.1⟩
  passed :=
    .inl (hTwin.passed.resolve_right fun hMissed => hBefore hMissed.1)
  closed := hTwin.closed
  closedOther := hTwin.closed

/- Nothing is past a fork at the last token. -/
theorem not_past
    (hBack : fork.back = [])
    (cursor : Cursor) :
    ¬ fork.Past cursor.rest := by
  rw [Past, first, hBack, Cursor.length_rest]
  have hFuel := cursor.fuel_pos
  simp only [List.length_singleton]
  omega

variable
  (hFound : fork.found.kind = .endOfInput)
  (hLast :
    ∀ token ∈ fork.front.getLast?, token.kind.endsOperand = false)

include hFound hLast

/- The token before a place at such a fork completes no operand. -/
theorem Twin.previous_fork
    (hTwin : fork.alone.Twin place other)
    (hFork : place.rest = fork.first) :
    place.previous.kind.endsOperand = false := by
  rcases hTwin.passed with
    ⟨tokens, hTokens, hPrevious⟩ | ⟨-, hMissed⟩
  · rw [hFork] at hTokens
    have hFront : tokens = fork.front :=
      List.append_cancel_right hTokens
    rw [← hPrevious, hFront]
    cases hToken : fork.front.getLast? with
    | none =>
        have hCurrent : place.current = fork.found :=
          (List.cons.inj hFork).1
        rw [Option.getD_none, hCurrent, hFound]
        rfl
    | some token => exact hLast token hToken
  · exact absurd rfl hMissed.1

variable (hBack : fork.back = [])

include hBack

/-
  A statement that is read before the fork ends before it, as
  the token before the fork completes no operand. So it is read
  alike whatever is at the fork.
-/
theorem statement_join
    {node : Node Span}
    {after : Cursor}
    (hTwin : fork.Twin place other)
    (hBefore : place.rest ≠ fork.first)
    (hBegins :
      place.previous.kind.beginsStatement = true ∨
        place.rest = fork.front ++ fork.first)
    (hOk :
      Production.statement (expression strict maxDepth) place =
        .ok node after) :
    after.rest ≠ fork.first ∧
      ∃ stop,
        Production.statement (expression strict maxDepth) other =
            .ok node stop ∧
          fork.Twin after stop := by
  have hRelates {fork : Fork} {place other : Cursor}
      (hTwin : fork.Twin place other)
      (hBegins :
        place.previous.kind.beginsStatement = true ∨
          place.rest = fork.front ++ fork.first) :
      fork.Relates .inner
        (Production.statement (expression strict maxDepth))
        (Production.statement (expression strict maxDepth))
        place other :=
    relates_statement (relates_expression maxDepth) hTwin hBegins
  have hEnds :=
    (Production.completes_statement strict maxDepth place
      hTwin.closed).of_ok hOk
  have hAlone := hRelates (hTwin.alone hBefore) hBegins
  have hBoth := hRelates hTwin hBegins
  rw [Relates, hOk] at hAlone hBoth
  have hAfter : after.rest ≠ fork.first := by
    intro hFork
    rcases hAlone with
      hPast | hStrays | hWhole | ⟨-, stop, -, hStop⟩
    · exact not_past hBack after hPast
    · exact hStrays.2.1 rfl
    · cases hWhole.1
    · rw [hStop.previous_fork hFound hLast hFork] at hEnds
      cases hEnds
  refine ⟨hAfter, ?_⟩
  rcases hBoth with hPast | hStrays | hWhole | ⟨-, stop, hStop⟩
  · exact absurd hPast (not_past hBack after)
  · exact absurd hStrays.1 hAfter
  · cases hWhole.1
  · exact ⟨stop, hStop⟩

omit hFound hLast hBack

/-
  A step of the second run ends with some statements and those
  of the tokens from the fork on after them. Nothing has been
  looked for where these begin.
-/
def GoesOn
    (fork : Fork)
    (strict : Bool)
    (nodes : List (Node Span))
    (ending : EStateM.Result SyntaxError Cursor (List (Node Span))) :
    Prop :=
  ∃ stop fuel,
    stop.rest = fork.second ∧
      stop.sought = [] ∧
      stop.fuel ≤ fuel ∧
      ending = ((nodes ++ ·) <$> topStatements strict fuel) stop

/- After a statement the second run goes on as with the statements after it. -/
theorem GoesOn.more
    {step stepOther : Parse (List (Node Span))}
    {nodes : List (Node Span)}
    {first : Node Span}
    {after : Cursor}
    (hOk : ((first :: ·) <$> step) place = .ok nodes after)
    (hMore :
      ∀ rest,
        step place = .ok rest after →
          fork.GoesOn strict rest (stepOther other)) :
    fork.GoesOn strict nodes
      (((first :: ·) <$> stepOther) other) := by
  rw [map_apply] at hOk
  cases hRest : step place with
  | error error last =>
      rw [hRest] at hOk
      cases hOk
  | ok rest last =>
      rw [hRest] at hOk
      cases hOk
      rcases hMore rest hRest with
        ⟨stop, fuel, hStop, hSought, hFuel, hEq⟩
      exact ⟨stop, fuel, hStop, hSought, hFuel, map_map_apply hEq⟩

include hFound hLast hBack

/- The statements of a script are read before another one. -/
theorem topStatements_join
    {fuel fuelOther : Nat}
    {nodes : List (Node Span)}
    {after : Cursor}
    (hTwin : fork.Twin place other)
    (hFresh : place.rest = fork.first → other.sought = [])
    (hBegins :
      place.previous.kind.beginsStatement = true ∨
        place.rest = fork.front ++ fork.first)
    (hFueled : Pairing.Fueled fuel fuelOther place other)
    (hOk : topStatements strict fuel place = .ok nodes after) :
    fork.GoesOn strict nodes
      (topStatements strict fuelOther other) := by
  induction fuel generalizing fuelOther place other nodes with
  | zero => exact absurd hFueled.place (Nat.not_le.mpr place.fuel_pos)
  | succ fuel ih =>
      rcases hFueled.exists_succ with ⟨_, fuelOther, _, rfl⟩
      rw [topStatements_apply] at hOk
      by_cases hFork : place.rest = fork.first
      · have hKind : place.current.kind = .endOfInput := by
          rw [(hTwin.current_fork hFork).1, hFound]
        rw [if_pos hKind] at hOk
        cases hOk
        refine
          ⟨other, fuelOther + 1, hTwin.rest_eq hFork, hFresh hFork,
            hFueled.other, ?_⟩
        exact (congrFun (id_map (topStatements strict _)) other).symm
      have hKind := hTwin.kind_ne_end hFork
      have hKindOther : other.current.kind ≠ .endOfInput := by
        rwa [hTwin.current_eq hFork]
      have hStatement := hTwin.seeking [.endOfInput]
      rw [if_neg hKind] at hOk
      rw [topStatements_apply, if_neg hKindOther]
      cases hFirst :
          Production.statement (expression strict maxDepth)
            (place.seeking [.endOfInput]) with
      | error error stop =>
          rw [hFirst] at hOk
          cases hOk
      | ok first end₁ =>
          rw [hFirst] at hOk
          rcases statement_join hFound hLast hBack hStatement hFork
              hBegins hFirst with
            ⟨hBefore, end₂, hSame, hEnd⟩
          rw [hSame]
          dsimp only at hOk ⊢
          have hLess :=
            Production.fuel_lt_of_statement hStatement.closed hFirst
          rw [Cursor.fuel_seeking] at hLess
          have hKindEnd := hEnd.kind_ne_end hBefore
          have hCurrent := hEnd.current_eq hBefore
          have hKindStop : end₂.current.kind ≠ .endOfInput := by
            rwa [hCurrent]
          by_cases hSemicolon : end₁.current.kind = .semicolon
          · rw [if_pos hSemicolon] at hOk
            rw [if_pos (by rw [hCurrent, hSemicolon])]
            have hLater := hEnd.next hBefore hKindEnd
            have hPrevious := hEnd.closed.previous_next hKindEnd
            have hNextFuel := end₁.fuel_next_le
            have hLaterFueled :=
              hTwin.less hFueled hLater (by omega)
            refine GoesOn.more hOk fun rest hRest =>
              ih hLater (fun _ => end₂.sought_next) (.inl ?_)
                hLaterFueled hRest
            rw [hPrevious, hSemicolon]
            rfl
          rw [if_neg hSemicolon, if_neg hKindEnd] at hOk
          rw [if_neg (by rwa [hCurrent]), if_neg hKindStop]
          by_cases hBrace : end₁.previous.kind = .rightBrace
          · rw [if_pos hBrace] at hOk
            rw [if_pos (by rw [hEnd.previous, hBrace])]
            have hLater :=
              (hEnd.seeking [.semicolon]).seeking [.endOfInput]
            have hLaterFueled := hTwin.less hFueled hLater hLess
            refine GoesOn.more hOk fun rest hRest =>
              ih hLater (fun hFork => absurd hFork hBefore) (.inl ?_)
                hLaterFueled hRest
            rw [Cursor.previous_seeking, Cursor.previous_seeking,
              hBrace]
            rfl
          · rw [if_neg hBrace] at hOk
            cases hOk

end Fork

------------------------------------------------------------
-- The Second Script
------------------------------------------------------------

section Again

variable {strict : Bool}
variable {cursor other : Cursor}
variable {fuel fuelOther : Nat}

/- Fuel makes no difference as long as there is enough of it. -/
theorem topStatements_fuel
    (hClosed : cursor.Closed)
    (hFueled : Pairing.Fueled fuel fuelOther cursor cursor) :
    topStatements strict fuel cursor =
      topStatements strict fuelOther cursor := by
  induction fuel generalizing fuelOther cursor with
  | zero => exact absurd hFueled.place (Nat.not_le.mpr cursor.fuel_pos)
  | succ fuel ih =>
      rcases hFueled.exists_succ with ⟨_, fuelOther, _, rfl⟩
      have hFuel := hFueled.place
      have hFuelOther := hFueled.other
      rw [topStatements_apply, topStatements_apply]
      split
      · rfl
      cases hFirst :
          Production.statement (expression strict maxDepth)
            (cursor.seeking [.endOfInput]) with
      | error error after => rfl
      | ok first after =>
          have hSeeking : (cursor.seeking [.endOfInput]).Closed :=
            hClosed
          have hStarts :=
            Production.startsOperand_of_statement hFirst
          have hRest :=
            (Production.beyond_statement hSeeking hStarts strict
              maxDepth).of_ok hFirst
          have hAfter := hSeeking.next.of_suffix hRest
          have hLess :=
            Production.fuel_lt_of_statement hSeeking hFirst
          rw [Cursor.fuel_seeking] at hLess
          have hNextFuel := after.fuel_next_le
          have hNext :
              topStatements strict fuel after.next =
                topStatements strict fuelOther after.next :=
            ih hAfter.next ⟨by omega, by omega⟩
          have hLast :
              topStatements strict fuel
                  ((after.seeking [.semicolon]).seeking
                    [.endOfInput]) =
                topStatements strict fuelOther
                  ((after.seeking [.semicolon]).seeking
                    [.endOfInput]) := by
            refine ih hAfter ⟨?_, ?_⟩ <;>
              · rw [Cursor.fuel_seeking, Cursor.fuel_seeking]
                omega
          simp only [map_apply, hNext, hLast]

/-
  Cursors at the same token, with the same looked for, but not
  after the same token.
-/
structure Cursor.Level (cursor other : Cursor) : Prop where
  current : cursor.current = other.current
  ahead : cursor.ahead = other.ahead
  sought : cursor.sought = other.sought

theorem Cursor.Level.seeking
    (hLevel : cursor.Level other)
    (kinds : List TokenKind) :
    (cursor.seeking kinds).Level (other.seeking kinds) :=
  ⟨hLevel.current, hLevel.ahead,
    congrArg (· ++ kinds) hLevel.sought⟩

/- What came before is forgotten when a token is taken. -/
theorem Cursor.Level.next
    (hLevel : cursor.Level other)
    (hClosed : cursor.Closed)
    (hKind : cursor.current.kind ≠ .endOfInput) :
    cursor.next = other.next := by
  have hAhead := mt hClosed.kind_eq_iff.mpr hKind
  rcases List.exists_cons_of_ne_nil hAhead with
    ⟨token, tokens, hTokens⟩
  rw [Cursor.next, Cursor.next, ← hLevel.ahead, hTokens,
    hLevel.current]

/- A step that begins by taking a token is the same from either place. -/
theorem Cursor.Level.advance
    {α : Type}
    (hLevel : cursor.Level other)
    (hClosed : cursor.Closed)
    (hKind : cursor.current.kind ≠ .endOfInput)
    (next : Token → Parse α) :
    (Parse.advance >>= next) cursor =
      (Parse.advance >>= next) other := by
  rw [advance_bind_apply, advance_bind_apply,
    hLevel.next hClosed hKind, hLevel.current]

/- What is unexpected and what was expected do not depend on what came before. -/
theorem Cursor.Level.unexpected
    {α : Type}
    (hLevel : cursor.Level other) :
    ∃ error after stop,
      (Parse.unexpected : Parse α) cursor = .error error after ∧
        (Parse.unexpected : Parse α) other = .error error stop := by
  refine
    ⟨⟨.unexpected, cursor.current, cursor.expected⟩, cursor, other,
      rfl, ?_⟩
  rw [Cursor.expected, hLevel.current, hLevel.sought]
  rfl

/- An operand begins by taking a token. -/
theorem Production.operand_level
    {expression : ExpressionReader}
    (hLevel : cursor.Level other)
    (hClosed : cursor.Closed)
    (hStarts : cursor.current.kind.startsOperand = true) :
    operand strict expression cursor =
      operand strict expression other := by
  have hEnd : cursor.current.kind ≠ .endOfInput := by
    intro hKind
    rw [hKind] at hStarts
    cases hStarts
  have hAdvance {next : Token → Parse (Node Span)} :
      (Parse.advance >>= next) cursor =
        (Parse.advance >>= next) other :=
    hLevel.advance hClosed hEnd next
  rw [operand, current_bind_apply, current_bind_apply,
    ← hLevel.current]
  generalize cursor.current.kind = kind at hStarts
  cases kind with
  | bang | minus => exact hAdvance
  | trueWord | falseWord | nullWord | number | string =>
      exact hAdvance
  | identifier => exact hAdvance
  | leftParen | leftBracket | leftBrace => exact hAdvance
  | «at» => exact hAdvance
  | switchWord | ifWord | returnWord => exact hAdvance
  | _ => cases hStarts

/-
  A statement is read alike whatever came before it: it begins
  by taking a token, or fails without looking back.
-/
theorem Production.statement_level
    (hLevel : cursor.Level other)
    (hClosed : cursor.Closed)
    (depth : Nat) :
    statement (expression strict depth) cursor =
        statement (expression strict depth) other ∨
      ∃ error after stop,
        statement (expression strict depth) cursor =
            .error error after ∧
          statement (expression strict depth) other =
            .error error stop := by
  have hFollowing : other.following = cursor.following := by
    rw [Cursor.following, Cursor.following, hLevel.ahead,
      hLevel.current]
  rw [statement_eq]
  cases hAhead :
      isAssigned cursor.current cursor.following.kind with
  | true =>
      have hOther :
          isAssigned other.current other.following.kind = true := by
        rw [hFollowing, ← hLevel.current, hAhead]
      have hEnd : cursor.current.kind ≠ .endOfInput := by
        simp [(name_of_isAssigned hAhead).1]
      rw [lookahead_of_ahead hAhead, lookahead_of_ahead hOther,
        hLevel.current]
      exact .inl (hLevel.advance hClosed hEnd _)
  | false =>
      have hOther :
          isAssigned other.current other.following.kind = false := by
        rw [hFollowing, ← hLevel.current, hAhead]
      rw [lookahead_of_not_ahead hAhead,
        lookahead_of_not_ahead hOther]
      cases depth with
      | zero =>
          refine
            .inr ⟨⟨.nestedTooDeeply, cursor.current, []⟩, cursor,
              other, rfl, ?_⟩
          rw [hLevel.current]
          rfl
      | succ depth =>
          cases hStarts : cursor.current.kind.startsOperand with
          | true =>
              exact .inl
                (bind_congr_at
                  (operand_level hLevel hClosed hStarts) _)
          | false =>
              have hStartsOther :
                  other.current.kind.startsOperand = false := by
                rw [← hLevel.current, hStarts]
              rw [expression_of_not_startsOperand hStarts,
                expression_of_not_startsOperand hStartsOther]
              exact .inr (hLevel.seeking _).unexpected

/- Statements are read alike whatever came before them. -/
theorem ending_topStatements
    (hLevel : cursor.Level other)
    (hClosed : cursor.Closed)
    (hFueled : Pairing.Fueled fuel fuelOther cursor other) :
    (topStatements strict fuel).ending cursor =
      (topStatements strict fuelOther).ending other := by
  have hFuel : other.fuel = cursor.fuel := by
    rw [Cursor.fuel, Cursor.fuel, hLevel.ahead]
  have hEnough : Pairing.Fueled fuel fuelOther cursor cursor :=
    ⟨hFueled.place, hFuel ▸ hFueled.other⟩
  rw [Parse.ending, topStatements_fuel hClosed hEnough, ← Parse.ending]
  rcases hFueled.exists_succ with ⟨_, fuelOther, _, rfl⟩
  rw [Parse.ending, Parse.ending, topStatements_apply,
    topStatements_apply, ← hLevel.current]
  by_cases hEnd : cursor.current.kind = .endOfInput
  · rw [if_pos hEnd, if_pos hEnd]
    exact congrArg (fun token => Except.ok ([], token)) hLevel.current
  rw [if_neg hEnd, if_neg hEnd]
  have hSeeking := hLevel.seeking [.endOfInput]
  rcases Production.statement_level hSeeking hClosed maxDepth with
    hSame | ⟨error, after, stop, hFirst, hSecond⟩
  · rw [hSame]
  · rw [hFirst, hSecond]

end Again

------------------------------------------------------------
-- Tokens Of Both Scripts
------------------------------------------------------------

namespace AreClosed

variable {tokens front others : List Token}
variable {close : Token}

theorem moved
    (hTokens : AreClosed tokens)
    (move : Span → Span) :
    AreClosed (tokens.map (Token.moved move)) := by
  rcases hTokens with ⟨front, close, rfl, hClose, hFront⟩
  refine
    ⟨front.map (Token.moved move), close.moved move, by simp, hClose,
      ?_⟩
  intro token hMem
  rcases List.mem_map.mp hMem with ⟨first, hFirst, rfl⟩
  exact hFront first hFirst

/- The last of the tokens marks their end. -/
theorem concat
    (hTokens : AreClosed (front ++ [close])) :
    close.kind = .endOfInput ∧
      ∀ token ∈ front, token.kind ≠ .endOfInput := by
  rcases hTokens with ⟨inner, last, hSame, hLast, hInner⟩
  rcases List.append_inj' hSame rfl with ⟨rfl, hClose⟩
  cases hClose
  exact ⟨hLast, hInner⟩

/- Tokens before closed ones are closed if none of them marks an end. -/
theorem append
    (hFront : ∀ token ∈ front, token.kind ≠ .endOfInput)
    (hOthers : AreClosed others) :
    AreClosed (front ++ others) := by
  rcases hOthers with ⟨inner, close, rfl, hClose, hInner⟩
  refine ⟨front ++ inner, close, by simp, hClose, ?_⟩
  intro token hMem
  rcases List.mem_append.mp hMem with hLeft | hRight
  · exact hFront token hLeft
  · exact hInner token hRight

end AreClosed

/- The tokens of a text are closed. -/
theorem areClosed_of_tokenize
    {text : Text}
    {tokens : List Token}
    (hTokens : tokenize text = .ok tokens) :
    AreClosed tokens := by
  rcases exists_read_of_tokenize hTokens with ⟨layout, hLayout⟩
  exact
    ⟨layout.tokens, .endAt (.after text), hLayout.tokens_eq, rfl,
      hLayout.describes.kind_ne⟩

/- There is no statement before the end. -/
theorem scriptParts_close
    (strict : Bool)
    {close : Token}
    (hClose : close.kind = .endOfInput) :
    scriptParts strict [close] = .ok ([], close) := by
  have hKind : (Cursor.start [close]).current.kind = .endOfInput :=
    hClose
  rw [scriptParts, Parse.ending, Cursor.fuel, topStatements_apply,
    if_pos hKind]
  rfl

/-
  The statements of one script come before those of another, if
  the last token before its end completes no operand.
-/
theorem scriptParts_append
    {strict : Bool}
    {front others : List Token}
    {close last : Token}
    {nodes : List (Node Span)}
    (hTokens : AreClosed (front ++ [close]))
    (hOthers : AreClosed others)
    (hLast : ∀ token ∈ front.getLast?, token.kind.endsOperand = false)
    (hHead :
      scriptParts strict (front ++ [close]) = .ok (nodes, last)) :
    scriptParts strict (front ++ others) =
      match scriptParts strict others with
      | .ok (rest, stop) => .ok (nodes ++ rest, stop)
      | .error error => .error error := by
  rcases hTokens.concat with ⟨hClose, hFront⟩
  by_cases hNone : front = []
  · subst hNone
    rw [List.nil_append, scriptParts_close strict hClose] at hHead
    cases hHead
    rw [List.nil_append]
    cases scriptParts strict others <;> rfl
  have hBoth := AreClosed.append hFront hOthers
  rcases others with _ | ⟨other, backOther⟩
  · rcases hOthers with ⟨inner, last, hEmpty, -⟩
    cases inner <;> cases hEmpty
  have hTwin :
      Fork.Twin ⟨front, close, [], other, backOther⟩
        (Cursor.start (front ++ [close]))
        (Cursor.start (front ++ other :: backOther)) :=
    Fork.twin_start hTokens hBoth fun hEmpty => absurd hEmpty hNone
  have hFresh :
      (Cursor.start (front ++ other :: backOther)).sought = [] := by
    cases front <;> rfl
  rw [scriptParts, Parse.ending] at hHead
  cases hFirst :
      topStatements strict (Cursor.start (front ++ [close])).fuel
        (Cursor.start (front ++ [close])) with
  | error error after =>
      rw [hFirst] at hHead
      cases hHead
  | ok statements after =>
      rw [hFirst] at hHead
      cases hHead
      rcases Fork.topStatements_join hClose hLast rfl hTwin
          (fun _ => hFresh) (.inr hTokens.rest_start)
          ⟨Nat.le_refl _, Nat.le_refl _⟩ hFirst with
        ⟨stop, fuel, hRest, hSought, hFuel, hSame⟩
      have hLevel : stop.Level (Cursor.start (other :: backOther)) := by
        rcases List.cons.inj hRest with ⟨hCurrent, hAhead⟩
        exact ⟨hCurrent, hAhead, hSought⟩
      have hClosed : stop.Closed := by
        rw [Cursor.Closed, hRest]
        exact hOthers
      have hSecond :
          (topStatements strict fuel).ending stop =
            scriptParts strict (other :: backOther) :=
        ending_topStatements hLevel hClosed ⟨hFuel, Nat.le_refl _⟩
      rw [scriptParts, ending_eq_of_eq hSame, ending_map, hSecond]
      cases scriptParts strict (other :: backOther) <;> rfl

------------------------------------------------------------
-- Scripts
------------------------------------------------------------

namespace ScriptError

/- The same error a number of lines further down. -/
def down
    (count : Nat) :
    ScriptError → ScriptError
  | .lexical error => .lexical (error.down count)
  | .syntactic error => .syntactic (error.moved (Span.down count))

variable (count : Nat) (error : ScriptError)

theorem code_down :
    (error.down count).code = error.code := by
  cases error <;> rfl

theorem message_down :
    (error.down count).message = error.message := by
  cases error <;> rfl

theorem notes_down :
    (error.down count).notes = error.notes := by
  cases error <;> rfl

theorem span_down :
    (error.down count).span = error.span.down count := by
  cases error <;> rfl

end ScriptError

/-
  What is read of a script by itself and behind some statements
  that take up a number of lines: its own statements come after
  those, and an error is found that many lines further down.
-/
inductive ReadBehind
    (count : Nat)
    (nodes : List (Node Span)) :
    Except ScriptError (Node Span) →
      Except ScriptError (Node Span) → Prop where
  | tree
      (others : List (Node Span))
      (mark : Span) :
      ReadBehind count nodes (.ok (.sequence others mark))
        (.ok
          (.sequence
            (nodes ++ others.map (Node.moved (Span.down count)))
            ⟨.start, mark.last.down count⟩))
  | error (error : ScriptError) :
      ReadBehind count nodes (.error error)
        (.error (error.down count))

/-
  Scripts concatenate. If a script parses, ends a line and has a
  semicolon last, then whatever comes after it is read as by
  itself.
-/
theorem parse_append
    {strict : Bool}
    {head : Text}
    {tokens : List Token}
    {tree : Node Span}
    (hTokens : tokenize head = .ok tokens)
    (hHead : parse strict head = .ok tree)
    (hLast :
      ∀ token ∈ tokens.dropLast.getLast?, token.kind = .semicolon)
    (hEnds : head.EndsLine) :
    ∃ nodes mark,
      tree = .sequence nodes mark ∧
        ∀ text,
          ReadBehind (head.count (.char '\n')) nodes
            (parse strict text) (parse strict (head ++ text)) := by
  have hNoOperand :
      ∀ token ∈ tokens.dropLast.getLast?,
        token.kind.endsOperand = false := by
    intro token hMem
    rw [hLast token hMem]
    rfl
  have hJoin := tokenize_append hEnds hTokens hNoOperand
  have hClosed := areClosed_of_tokenize hTokens
  rcases hClosed with ⟨front, close, rfl, hClose, hFront⟩
  have hClosed : AreClosed (front ++ [close]) :=
    ⟨front, close, rfl, hClose, hFront⟩
  rw [List.dropLast_concat] at hNoOperand hJoin
  simp only [parse, hTokens, parseTokens_eq] at hHead
  cases hParts : scriptParts strict (front ++ [close]) with
  | error error =>
      rw [hParts] at hHead
      cases hHead
  | ok parts =>
      rcases parts with ⟨nodes, last⟩
      rw [hParts] at hHead
      cases hHead
      refine ⟨nodes, _, rfl, fun text => ?_⟩
      rw [parse, parse, hJoin]
      cases hText : tokenize text with
      | error error => exact .error (.lexical error)
      | ok others =>
          have hOthers := areClosed_of_tokenize hText
          have hMoved :=
            scriptParts_moved (Move.down (head.count (.char '\n')))
              strict (tokenize_ne_nil hText)
          have hDown :=
            hOthers.moved (Span.down (head.count (.char '\n')))
          have hAppend :=
            scriptParts_append hClosed hDown hNoOperand hParts
          rw [Move.span_down] at hMoved
          simp only [parseTokens_eq, hAppend, hMoved]
          cases scriptParts strict others with
          | error error => exact .error (.syntactic error)
          | ok parts =>
              rcases parts with ⟨others, stop⟩
              simp only [Node.movedAll_eq_map]
              exact .tree others ⟨.start, stop.span.last⟩

/- Two lines before any others, whether those parse or not. -/
theorem parse_append_line :
    ∃ tokens tree,
      tokenize "x = {y; z} # one\n;\n" = .ok tokens ∧
        parse true "x = {y; z} # one\n;\n" = .ok tree ∧
        (∀ token ∈ tokens.dropLast.getLast?,
          token.kind = .semicolon) ∧
        Text.EndsLine "x = {y; z} # one\n;\n" ∧
        ∃ nodes mark,
          tree = .sequence nodes mark ∧
            ∀ text,
              ReadBehind 2 nodes (parse true text)
                (parse true ("x = {y; z} # one\n;\n" ++ text)) := by
  have hKinds :
      (tokenize "x = {y; z} # one\n;\n").toOption.map
          (fun tokens =>
            tokens.dropLast.getLast?.map Token.kind) =
        some (some .semicolon) := by
    decide +kernel
  have hParses :
      (parse true "x = {y; z} # one\n;\n").toOption.isSome = true := by
    decide +kernel
  have hEnds : Text.EndsLine "x = {y; z} # one\n;\n" := by
    unfold Text.EndsLine
    decide
  cases hTokens : tokenize "x = {y; z} # one\n;\n" with
  | error error =>
      rw [hTokens] at hKinds
      cases hKinds
  | ok tokens =>
      cases hTree : parse true "x = {y; z} # one\n;\n" with
      | error error =>
          rw [hTree] at hParses
          cases hParses
      | ok tree =>
          rw [hTokens] at hKinds
          have hLast :
              ∀ token ∈ tokens.dropLast.getLast?,
                token.kind = .semicolon := by
            intro token hMem
            have hKind :
                tokens.dropLast.getLast?.map Token.kind =
                  some .semicolon :=
              Option.some.inj hKinds
            rw [Option.mem_def.mp hMem] at hKind
            exact Option.some.inj hKind
          exact
            ⟨tokens, tree, rfl, rfl, hLast, hEnds,
              parse_append hTokens hTree hLast hEnds⟩

end ExperimentScript
