import ExperimentScript.Proofs.Parser.Forked

/-
  What the error of a script depends on.

  Reading stops at the first token that it cannot take. What
  comes after that token plays no part in the error, and a
  token of another kind at its place is an error as well, if
  the kind is not among those expected. The second statement
  holds but for the kinds that reading overlooks.

  Main declarations:
    * `ExperimentScript.failsAt_of_take_eq`
    * `ExperimentScript.failsAt_of_not_expected`
-/

namespace ExperimentScript

open Parse

------------------------------------------------------------
-- Scripts That Fork
------------------------------------------------------------

namespace Fork

variable {fork : Fork}
variable {strict : Bool}
variable {error : SyntaxError}
variable {after : Cursor}

/- Two scripts that begin with the same token begin alike. -/
theorem twin_start
    (hTokens : AreClosed (fork.front ++ fork.first))
    (hOthers : AreClosed (fork.front ++ fork.second))
    (hStart : fork.front = [] → fork.found = fork.other) :
    fork.Twin (Cursor.start (fork.front ++ fork.first))
      (Cursor.start (fork.front ++ fork.second)) where
  previous := by
    cases hFront : fork.front with
    | nil => exact (hStart hFront).symm
    | cons token front => rfl
  sought := by cases fork.front <;> rfl
  level :=
    ⟨fork.front, hTokens.rest_start, hOthers.rest_start⟩
  passed := by
    refine .inl ⟨[], hTokens.rest_start, ?_⟩
    cases fork.front <;> rfl
  closed := hTokens.closed_start
  closedOther := hOthers.closed_start

/-
  A script that fails at the fork is excused, or the other one
  fails there too and says the same.
-/
theorem excuses_or_failsAt
    (hTokens : AreClosed (fork.front ++ fork.first))
    (hOthers : AreClosed (fork.front ++ fork.second))
    (hStart : fork.front = [] → fork.found = fork.other)
    (hError :
      script strict (Cursor.start (fork.front ++ fork.first)) =
        .error error after)
    (hLeft : after.left error = fork.first)
    (hLimit : error.isDepthLimit = false) :
    fork.Excuses error after ∨
      FailsAt strict (fork.front ++ fork.second)
        fork.front.length
        ⟨error.cause, fork.other, error.expected⟩ := by
  have hRelates :
      fork.Relates .whole (script strict) (script strict)
        (Cursor.start (fork.front ++ fork.first))
        (Cursor.start (fork.front ++ fork.second)) :=
    relates_script (twin_start hTokens hOthers hStart)
      hTokens.rest_start
  rw [Relates, hError] at hRelates
  rcases hRelates with
    hDepth | hPast | hExcuses | ⟨-, same, stop, hSame, hEchoes⟩
  · rw [hLimit] at hDepth
    cases hDepth
  · rw [hLeft] at hPast
    exact absurd hPast (Nat.lt_irrefl _)
  · exact .inl hExcuses
  rcases hEchoes.level with ⟨before, hFirst, hSecond⟩
  rw [hLeft] at hFirst
  have hNone : before = [] := List.self_eq_append_left.mp hFirst
  rw [hNone, List.nil_append] at hSecond
  have hFound : same.found = fork.other := by
    have hHead := hEchoes.foundOther
    rw [hSecond] at hHead
    exact (Option.some.inj hHead).symm
  have hSameError :
      (⟨error.cause, fork.other, error.expected⟩ : SyntaxError) =
        same := by
    rw [← hFound, ← hEchoes.cause, ← hEchoes.expected]
  refine .inr ⟨fork.front, fork.backOther, stop, rfl, rfl, ?_, ?_⟩
  · rw [hSameError]
    exact hSame
  · rw [hSameError, hFound]
    rw [Cursor.left] at hSecond
    split at hSecond
    · rename_i hCause
      rw [if_pos hCause]
      exact (List.cons.inj hSecond).2
    · rename_i hCause
      rw [if_neg hCause]
      exact hSecond

end Fork

variable {strict : Bool}
variable {tokens others : List Token}
variable {index : Nat}
variable {error : SyntaxError}

/- A script fails about the token where its error is found. -/
theorem FailsAt.exists_left
    (hFails : FailsAt strict tokens index error) :
    ∃ front back after,
      tokens = front ++ error.found :: back ∧
        front.length = index ∧
        script strict (Cursor.start tokens) = .error error after ∧
        after.left error = error.found :: back := by
  rcases hFails with ⟨front, back, after, hTokens, hIndex, hError, hRest⟩
  refine ⟨front, back, after, hTokens, hIndex, hError, ?_⟩
  rw [Cursor.left, hRest]
  split <;> rfl

------------------------------------------------------------
-- What Comes After An Error
------------------------------------------------------------

/-
  Nothing after the token that an error is about plays a part
  in the error. The limit of nesting is set aside.
-/
theorem failsAt_of_take_eq
    (hTokens : AreClosed tokens)
    (hOthers : AreClosed others)
    (hTake : others.take (index + 1) = tokens.take (index + 1))
    (hFails : FailsAt strict tokens index error)
    (hLimit : error.isDepthLimit = false) :
    FailsAt strict others index error := by
  rcases hFails.exists_left with
    ⟨front, back, after, rfl, rfl, hError, hLeft⟩
  let fork : Fork :=
    ⟨front, error.found, back, error.found,
      others.drop (front.length + 1)⟩
  have hFront :
      (front ++ error.found :: back).take (front.length + 1) =
        front ++ [error.found] := by
    rw [List.take_length_add_append]
    rfl
  have hSecond : others = fork.front ++ fork.second := by
    rw [← List.take_append_drop (front.length + 1) others, hTake,
      hFront, List.append_assoc]
    rfl
  rw [hSecond] at hOthers ⊢
  rcases fork.excuses_or_failsAt hTokens hOthers (fun _ => rfl)
      hError hLeft hLimit with
    hExcuses | hSame
  · exact absurd rfl hExcuses.1
  · exact hSame

/- Another script after a stray bracket changes nothing. -/
theorem failsAt_of_take_eq_bracket :
    ∃ error,
      FailsAt false strayBracket 1 error ∧
        FailsAt false (strayBracket.take 2 ++ strayBracket) 1
          error := by
  have hFails : ∃ error,
      FailsAt false strayBracket 1 error ∧
        error.isDepthLimit = false :=
    ⟨_, ⟨strayBracket.take 1, strayBracket.drop 2, _, rfl, rfl, rfl,
        rfl⟩, rfl⟩
  rcases hFails with ⟨error, hError, hLimit⟩
  exact
    ⟨error, hError,
      failsAt_of_take_eq
        ⟨strayBracket.dropLast, .endAt .start, rfl, rfl, by decide⟩
        ⟨strayBracket.take 2 ++ strayBracket.dropLast,
          .endAt .start, rfl, rfl, by decide⟩
        rfl hError hLimit⟩

------------------------------------------------------------
-- Tokens That Are Not Expected
------------------------------------------------------------

/- The kinds that reading may overlook. -/
def TokenKind.overlooked : List TokenKind :=
  [.assign, .arrowAssign, .colon, .rightBracket, .rightBrace] ++
    operandStarts

theorem Overlooks.mem_overlooked
    {front : List Token}
    {kind : TokenKind}
    (hOverlooks : Overlooks front kind) :
    kind ∈ TokenKind.overlooked := by
  have hConnective {word : Text} {token : Token}
      (hWord : Production.isConnective word token kind = true) :
      kind ∈ TokenKind.overlooked :=
    List.mem_append_right _ (List.contains_iff_mem.mp
      (Production.name_of_isConnective hWord).2)
  cases hOverlooks with
  | assignment hBefore hSign =>
      simp only [Production.isAssigned, Production.assigns,
        Bool.and_eq_true, Bool.or_eq_true, decide_eq_true_eq]
        at hSign
      rcases hSign.2 with rfl | rfl <;> decide
  | argument hOpening hSign =>
      rcases (Production.sign_of_isNamed hSign).2 with
        rfl | rfl <;> decide
  | case hBefore hWord => exact hConnective hWord
  | consequence hClosing hWord => exact hConnective hWord
  | list hBefore hOpening => decide
  | map hOpening => decide

/- The kinds that are looked for at the beginning of a script. -/
def TokenKind.beginnings : List TokenKind :=
  all.filter (.endOfInput :: operandStarts).contains

/- A script fails at a first token that begins no statement. -/
theorem failsAt_zero
    {token : Token}
    {back : List Token}
    (strict : Bool)
    (hKind : token.kind ∉ TokenKind.beginnings) :
    FailsAt strict (token :: back) 0
      ⟨.unexpected, token, TokenKind.beginnings⟩ := by
  have hNeither :
      token.kind ≠ .endOfInput ∧
        token.kind.startsOperand = false := by
    simpa [TokenKind.beginnings, token.kind.mem_all,
      TokenKind.startsOperand] using hKind
  have hScript :
      script strict (Cursor.start (token :: back)) = _ :=
    script_of_not_starts strict hNeither.1 hNeither.2
  exact ⟨[], back, _, rfl, rfl, hScript, rfl⟩

/- A script fails at its first token in no other way. -/
theorem FailsAt.eq_of_zero
    {token : Token}
    {back : List Token}
    (hTokens : AreClosed (token :: back))
    (hFails : FailsAt strict (token :: back) 0 error)
    (hLimit : error.isDepthLimit = false) :
    error = ⟨.unexpected, token, TokenKind.beginnings⟩ := by
  let cursor := Cursor.start (token :: back)
  have hClosed : cursor.Closed := hTokens.closed_start
  rcases hFails.exists_left with
    ⟨front, rest, after, hWhole, hFront, hError, hLeft⟩
  rw [List.eq_nil_of_length_eq_zero hFront, List.nil_append]
    at hWhole
  rw [← hWhole] at hLeft
  by_cases hEnd : token.kind = .endOfInput
  · have hTree : ∃ tree, script strict cursor = .ok tree _ :=
      script_of_end strict hEnd
    rcases hTree with ⟨tree, hTree⟩
    rw [hTree] at hError
    cases hError
  cases hStarts : token.kind.startsOperand with
  | true =>
      have hBeyond := beyond_script strict hClosed hStarts
      rcases Fork.left_suffix hBeyond hError with
        hDepth | ⟨hShort, -⟩
      · rw [hLimit] at hDepth
        cases hDepth
      · rw [hLeft] at hShort
        exact absurd hShort.length_le
          (Nat.not_le.mpr (hClosed.fuel_next_lt hEnd))
  | false =>
      have hScript : script strict cursor = _ :=
        script_of_not_starts strict hEnd hStarts
      rw [hScript] at hError
      cases hError
      rfl

/-
  A token of a kind that is not expected where a script fails
  is not expected in place of the token that it fails about,
  if reading does not overlook the kind: the script fails at
  the same place, in the same way and with the same kinds
  expected.
-/
theorem failsAt_of_not_expected
    {token : Token}
    {back : List Token}
    (hTokens : AreClosed tokens)
    (hOthers : AreClosed (tokens.take index ++ token :: back))
    (hFails : FailsAt strict tokens index error)
    (hCause : error.IsUnexpected)
    (hKind : token.kind ∉ error.expected)
    (hOverlooks : ¬ Overlooks (tokens.take index) token.kind) :
    FailsAt strict (tokens.take index ++ token :: back) index
      ⟨error.cause, token, error.expected⟩ := by
  have hLimit : error.isDepthLimit = false := by
    rw [SyntaxError.isDepthLimit]
    rcases hCause with hCause | hCause <;> rw [hCause]
  rcases hFails.exists_left with
    ⟨front, rest, after, rfl, rfl, hError, hLeft⟩
  rw [List.take_left' rfl] at hOthers hOverlooks ⊢
  by_cases hStart : front = []
  · subst hStart
    have hFirst := hFails.eq_of_zero hTokens hLimit
    rw [hFirst] at hKind ⊢
    exact failsAt_zero strict hKind
  let fork : Fork := ⟨front, error.found, rest, token, back⟩
  rcases fork.excuses_or_failsAt hTokens hOthers
      (fun hNone => absurd hNone hStart) hError hLeft hLimit with
    ⟨-, hNot | ⟨-, hMissed | hExpected⟩⟩ | hSame
  · exact absurd hCause hNot
  · exact absurd hMissed hOverlooks
  · exact absurd hExpected hKind
  · exact hSame

/- A closing parenthesis would be no better than the bracket. -/
theorem failsAt_of_not_expected_paren :
    ∃ error,
      FailsAt false strayBracket 1 error ∧
        .rightParen ∉ error.expected ∧
        FailsAt false
          (strayBracket.take 1 ++
            [(TokenKind.rightParen).sample, .endAt .start])
          1 ⟨error.cause, (TokenKind.rightParen).sample,
            error.expected⟩ := by
  have hFails : ∃ error,
      FailsAt false strayBracket 1 error ∧ error.IsUnexpected ∧
        .rightParen ∉ error.expected :=
    ⟨_, ⟨strayBracket.take 1, strayBracket.drop 2, _, rfl, rfl, rfl,
        rfl⟩, .inl rfl, by decide⟩
  rcases hFails with ⟨error, hError, hCause, hKind⟩
  exact
    ⟨error, hError, hKind,
      failsAt_of_not_expected
        ⟨strayBracket.dropLast, .endAt .start, rfl, rfl, by decide⟩
        ⟨strayBracket.take 1 ++ [(TokenKind.rightParen).sample],
          .endAt .start, rfl, rfl, by decide⟩
        hError hCause hKind
        fun hOverlooks =>
          absurd hOverlooks.mem_overlooked (by decide)⟩

/- A sign of assignment is not expected there, but may stand there. -/
example :
    ∃ error later,
      FailsAt false strayBracket 1 error ∧
        .assign ∉ error.expected ∧
        FailsAt false
          (strayBracket.take 1 ++
            [(TokenKind.assign).sample, .endAt .start]) 2 later :=
  ⟨_, _,
    ⟨strayBracket.take 1, strayBracket.drop 2, _, rfl, rfl, rfl,
      rfl⟩,
    by decide,
    ⟨strayBracket.take 1 ++ [(TokenKind.assign).sample], [], _, rfl,
      rfl, rfl, rfl⟩⟩

end ExperimentScript
