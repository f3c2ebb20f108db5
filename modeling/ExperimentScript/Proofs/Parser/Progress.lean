import ExperimentScript.Proofs.Parser.Forward

/-
  What is read takes a token.

  Statements, expressions and embedded constants end beyond
  the token that they begin with, and never beyond the token
  that marks the end. A step `Gains` if it does so; such a
  step does not lose it by going on, as everything else goes
  forward.

  Key definitions include:
    * `ExperimentScript.Cursor.StandsAt`
    * `ExperimentScript.Parse.Gains`
    * `ExperimentScript.Parse.Advances`

  Main declarations:
    * `ExperimentScript.Parse.Gains.advances`
    * `ExperimentScript.Production.gains_statement`
    * `ExperimentScript.gains_expression`
    * `ExperimentScript.Embedded.gains_value`
-/

namespace ExperimentScript

------------------------------------------------------------
-- Places Among Tokens
------------------------------------------------------------

namespace Cursor

variable {tokens : List Token}
variable {cursor after : Cursor}
variable {index : Nat}

/- A place is the one at the token of an index. -/
structure StandsAt
    (cursor : Cursor)
    (tokens : List Token)
    (index : Nat) : Prop where
  inside : index < tokens.length
  rest : cursor.rest = tokens.drop index

theorem StandsAt.closed
    (hTokens : AreClosed tokens)
    (hStands : cursor.StandsAt tokens index) :
    cursor.Closed := by
  refine hTokens.closed_start.of_suffix ?_
  rw [hTokens.rest_start, hStands.rest]
  exact List.drop_suffix _ _

/- The tokens left are those from the index on. -/
theorem StandsAt.fuel_eq
    (hStands : cursor.StandsAt tokens index) :
    cursor.fuel = tokens.length - index := by
  rw [← cursor.length_rest, hStands.rest, List.length_drop]

/- A place with some of the tokens left is the one at the first of these. -/
theorem standsAt_of_suffix
    (hSuffix : cursor.rest <:+ tokens) :
    cursor.StandsAt tokens (tokens.length - cursor.fuel) := by
  have hLength := hSuffix.length_le
  have hRest := List.suffix_iff_eq_drop.mp hSuffix
  rw [length_rest] at hLength hRest
  have hSome := cursor.fuel_pos
  exact ⟨by omega, hRest⟩

/- Where more than a token has been taken a later index is reached. -/
theorem StandsAt.later
    (hStands : cursor.StandsAt tokens index)
    (hAfter : after.rest <:+ cursor.ahead) :
    ∃ later, index < later ∧ after.StandsAt tokens later := by
  have hAhead : cursor.ahead = tokens.drop (index + 1) := by
    rw [← List.tail_drop, ← hStands.rest]
    rfl
  rw [hAhead] at hAfter
  have hLength := hAfter.length_le
  rw [List.length_drop, length_rest] at hLength
  have hSome := after.fuel_pos
  exact
    ⟨_, by omega,
      standsAt_of_suffix (hAfter.trans (List.drop_suffix _ _))⟩

/- A place before which nothing is left but the end is the last one. -/
theorem StandsAt.eq_of_closed
    (hStands : cursor.StandsAt tokens index)
    (hTokens : AreClosed tokens)
    (hKind : cursor.current.kind = .endOfInput) :
    index + 1 = tokens.length := by
  have hAhead := (hStands.closed hTokens).kind_eq_iff.mp hKind
  have hFuel := hStands.fuel_eq
  have hInside := hStands.inside
  rw [fuel, hAhead, List.length_nil] at hFuel
  omega

/- Behind a token that is not the end fewer tokens are left. -/
theorem Closed.rest_next
    (hClosed : cursor.Closed)
    (hKind : cursor.current.kind ≠ .endOfInput) :
    cursor.next.rest = cursor.ahead :=
  (List.cons.inj (hClosed.rest_eq hKind)).2.symm

end Cursor

------------------------------------------------------------
-- Steps That Take A Token
------------------------------------------------------------

namespace Parse

variable {α β : Type}

/- A step that takes a token at least where it succeeds. -/
class Gains (step : Parse α) : Prop where
  gains :
    ∀ {cursor result after},
      cursor.Closed → step cursor = .ok result after →
        after.rest <:+ cursor.ahead

/-
  Where a step succeeds it ends at a later token than it has
  begun at, if at the end of the tokens then at the last one.
-/
def Advances
    (tokens : List Token)
    (step : Parse α) : Prop :=
  ∀ cursor index result after,
    cursor.StandsAt tokens index →
      step cursor = .ok result after →
        ∃ later, index < later ∧ after.StandsAt tokens later

theorem Gains.advances
    {tokens : List Token}
    (hTokens : AreClosed tokens)
    (step : Parse α)
    [hStep : Gains step] :
    Advances tokens step :=
  fun _ _ _ _ hStands hOk =>
    hStands.later (hStep.gains (hStands.closed hTokens) hOk)

namespace Gains

/- What ends beyond the token at the place, if that is not the end. -/
theorem of_beyond
    {step : Parse α}
    {cursor after : Cursor}
    {result : α}
    (hClosed : cursor.Closed)
    (hKind : cursor.current.kind ≠ .endOfInput)
    (hBeyond : step.Beyond cursor cursor.next)
    (hOk : step cursor = .ok result after) :
    after.rest <:+ cursor.ahead :=
  hClosed.rest_next hKind ▸ hBeyond.of_ok hOk

/- What follows a step that takes a token goes forward from there. -/
instance {first : Parse β} {next : β → Parse α}
    [hFirst : Gains first] [hNext : ∀ result, Forward (next result)] :
    Gains (first >>= next) := by
  refine ⟨fun {cursor result after} hClosed hOk => ?_⟩
  cases hStep : first cursor with
  | error error stop =>
      rw [bind_of_error hStep] at hOk
      cases hOk
  | ok found middle =>
      rw [bind_of_ok hStep] at hOk
      have hMiddle := hFirst.gains hClosed hStep
      have hSuffix : middle.rest <:+ cursor.rest :=
        hMiddle.trans (List.suffix_cons _ _)
      have hForward :=
        (hNext found).beyond middle (hClosed.of_suffix hSuffix)
      exact (hForward.of_ok hOk).trans hMiddle

/- A token that is taken is one, unless it marks the end. -/
theorem of_advance
    {next : Token → Parse α}
    [hNext : ∀ token, Forward (next token)]
    {cursor after : Cursor}
    {result : α}
    (hClosed : cursor.Closed)
    (hKind : cursor.current.kind ≠ .endOfInput)
    (hOk : (advance >>= next) cursor = .ok result after) :
    after.rest <:+ cursor.ahead :=
  of_beyond hClosed hKind (beyond_advance hClosed) hOk

/- A token that has to stand at the place is taken. -/
theorem expect
    {kind : TokenKind}
    (hKind : kind ≠ .endOfInput) :
    Gains (Parse.expect kind) := by
  refine ⟨fun {cursor token after} hClosed hOk => ?_⟩
  by_cases hHere : cursor.current.kind = kind
  · rw [← bind_pure (Parse.expect kind), expect_bind,
      test_of_eq hHere] at hOk
    cases hOk
    exact hClosed.rest_next (hHere ▸ hKind) ▸ List.suffix_refl _
  · rw [← bind_pure (Parse.expect kind), expect_bind,
      test_of_ne hHere] at hOk
    cases hOk

instance : Gains (Parse.expect .identifier) :=
  expect nofun

instance : Gains (Parse.expect .leftParen) :=
  expect nofun

end Gains

end Parse

------------------------------------------------------------
-- Embedded Constants
------------------------------------------------------------

open Parse

namespace Embedded

/- A constant takes a token at least. -/
instance gains_value (strict : Bool) (depth : Nat) :
    Gains (value strict depth) := by
  refine ⟨fun {cursor found after} hClosed hOk => ?_⟩
  cases depth with
  | zero => cases hOk
  | succ depth =>
      by_cases hStarts : cursor.current.kind ∈ valueStarts
      · have hKind : cursor.current.kind ≠ .endOfInput := by
          intro hEnd
          rw [hEnd] at hStarts
          exact absurd hStarts (by decide)
        by_cases hString : cursor.current.kind = .string
        · rw [value_of_string hString] at hOk
          rw [← hClosed.rest_next hKind]
          rcases stringValue_cases strict (depth + 1)
              cursor.current with
            ⟨value, hSame⟩ | ⟨-, _, -, -, hSame⟩ | hSame
          · rw [hSame] at hOk
            cases hOk
            exact List.suffix_refl _
          · rw [hSame] at hOk
            cases hOk
          · rw [hSame] at hOk
            cases hOk
        · exact Gains.of_beyond hClosed hKind
            (beyond_value hClosed hStarts hString strict _) hOk
      · rw [value_of_not_starts hStarts] at hOk
        cases hOk

/- So does a token that has to stand at the place. -/
instance : Gains (expect .identifier) := by
  refine ⟨fun {cursor token after} hClosed hOk => ?_⟩
  rw [← bind_pure (expect .identifier), expect_bind] at hOk
  by_cases hHere : cursor.current.kind = .identifier
  · rw [oneOf, choice_of_takes (by rw [hHere]; rfl)] at hOk
    cases hOk
    exact hClosed.rest_next (hHere ▸ nofun) ▸ List.suffix_refl _
  · rw [oneOf, choice_of_not_takes (by simp [hHere])] at hOk
    cases hOk

end Embedded

------------------------------------------------------------
-- Expressions And Statements
------------------------------------------------------------

namespace Production

/- An operand takes the token that begins it. -/
instance gains_operand
    (strict : Bool)
    (reader : ExpressionReader)
    [∀ power, Forward (reader power)] :
    Gains (operand strict reader) := by
  refine ⟨fun {cursor node after} hClosed hOk => ?_⟩
  cases hStarts : cursor.current.kind.startsOperand with
  | false =>
      rw [operand_of_not_startsOperand reader hStarts] at hOk
      cases hOk
  | true =>
      refine Gains.of_beyond hClosed (fun hEnd => ?_)
        (beyond_operand reader hClosed hStarts strict) hOk
      rw [hEnd] at hStarts
      cases hStarts

end Production

/- What comes after the first operand of an expression goes forward. -/
instance gains_expression (strict : Bool) (depth power : Nat) :
    Gains (expression strict depth power) := by
  cases depth with
  | zero => exact ⟨fun _ hOk => by cases hOk⟩
  | succ depth =>
      unfold expression
      infer_instance

namespace Production

/- A statement takes a token at least if expressions do. -/
instance gains_statement
    (reader : ExpressionReader)
    [∀ power, Forward (reader power)]
    [hReader : ∀ power, Gains (reader power)] :
    Gains (statement reader) := by
  refine ⟨fun {cursor node after} hClosed hOk => ?_⟩
  rw [statement_eq] at hOk
  cases hAhead :
      isAssigned cursor.current cursor.following.kind with
  | true =>
      rw [lookahead_of_ahead hAhead] at hOk
      refine Gains.of_advance hClosed ?_ hOk
      rw [(name_of_isAssigned hAhead).1]
      exact nofun
  | false =>
      rw [lookahead_of_not_ahead hAhead] at hOk
      exact (hReader 0).gains hClosed hOk

/- What comes after a connective does not lose the token it takes. -/
instance gains_afterConnective
    {α : Type}
    (word : Text)
    (next : Parse α)
    [Forward next]
    [hNext : Gains next] :
    Gains (afterConnective word next) := by
  refine ⟨fun {cursor result after} hClosed hOk => ?_⟩
  cases hAhead :
      isConnective word cursor.current cursor.following.kind with
  | true =>
      rw [afterConnective, lookahead_of_ahead hAhead] at hOk
      refine Gains.of_advance hClosed ?_ hOk
      rw [(name_of_isConnective hAhead).1]
      exact nofun
  | false =>
      rw [afterConnective, lookahead_of_not_ahead hAhead] at hOk
      exact hNext.gains hClosed hOk

end Production

end ExperimentScript
