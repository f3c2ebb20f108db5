import ExperimentScript.Proofs.Parser.Abreast

/-
  What is expected where reading fails.

  A run that fails at a token is compared with runs over other
  tokens from there on: one of an expected kind, or the end.
  The other run cannot fail at the same place, as what it finds
  there would have been looked for, so that it goes on or ends
  well.

  Key definitions include:
    * `ExperimentScript.TokenKind.sample`
    * `ExperimentScript.Pairing.alone`
    * `ExperimentScript.Pairing.probe`

  Main declarations:
    * `ExperimentScript.viable_of_expected`
-/

namespace ExperimentScript

open Parse

------------------------------------------------------------
-- Samples
------------------------------------------------------------

/- A token of a kind; the text of a string is a number. -/
def TokenKind.sample : TokenKind → Token
  | .identifier => ⟨.identifier, "x", ⟨.start, .start⟩, none⟩
  | .number => ⟨.number, "0", ⟨.start, .start⟩, some (.int 0)⟩
  | .string =>
    ⟨.string, "\"0\"", ⟨.start, .start⟩, some (.text "0")⟩
  | kind =>
    ⟨kind, kind.spelling?.getD [], ⟨.start, .start⟩, none⟩

theorem TokenKind.kind_sample (kind : TokenKind) :
    kind.sample.kind = kind := by
  cases kind <;> rfl

/- The sample of a string can be read in both modes. -/
theorem stringValue_sample
    (strict : Bool)
    (depth : Nat) :
    ∃ value,
      Embedded.stringValue strict (depth + 1)
        (TokenKind.sample .string) = pure value := by
  cases strict with
  | false => exact ⟨_, rfl⟩
  | true => exact ⟨.int 0, rfl⟩

------------------------------------------------------------
-- Pairs Of Runs In One Mode
------------------------------------------------------------

/- Where only the end is left, reading goes no further. -/
theorem Cursor.Reaches.limited
    {place stop : Cursor}
    {error : Option SyntaxError}
    (hStop : place.Reaches error stop)
    (hFuel : place.fuel ≤ 1) :
    (∃ found ∈ error, found.isDepthLimit = true) ∨
      (stop.fuel ≤ 1 ∧
        ∀ found ∈ error, found.cause ≠ .notJson) := by
  cases error with
  | none =>
      exact .inr
        ⟨Nat.le_trans (fuel_le_of_suffix hStop) hFuel, nofun⟩
  | some error =>
      refine hStop.imp (fun hDepth => ⟨error, rfl, hDepth⟩)
        fun hFound => ⟨?_, ?_⟩
      · exact Nat.le_trans (fuel_le_of_suffix hFound.1) hFuel
      · rintro _ ⟨⟩
        exact hFound.2.not_notJson hFuel

namespace Pairing

variable {pairing : Pairing}
variable {strict : Bool}
variable {place other : Cursor}

/- Before the forks both runs make the same of a string. -/
theorem Relates.string
    {differ : Text → Value → Prop}
    (hIgnored :
      ∀ error : SyntaxError, error.cause = .notJson →
        pairing.ignored error)
    (hTwin : pairing.Twin 0 place other)
    (hBefore : place.rest ≠ pairing.first)
    (hKind : place.current.kind = .string)
    (depth : Nat) :
    pairing.Relates (.inside 0) (Value.SameBut differ)
      (Embedded.value strict (depth + 1))
      (Embedded.value strict (depth + 1)) place other := by
  have hSame := hTwin.current_eq hBefore
  refine .of_eq (Embedded.value_of_string hKind strict depth)
    (Embedded.value_of_string (hSame ▸ hKind) strict depth) ?_
  rw [← hSame]
  rcases Embedded.stringValue_cases strict (depth + 1)
      place.current with
    ⟨value, hValue⟩ | ⟨-, text, -, -, hValue⟩ | hValue
  · rw [hValue]
    exact .pure (hTwin.next hBefore (hKind ▸ nofun)) (.refl value)
  · rw [hValue]
    exact .inl ⟨.inr (hIgnored _ rfl), fun _ => ⟨_, _, rfl⟩⟩
  · rw [hValue]
    exact .tooDeep rfl

/- Two runs in one mode that no string leads apart stay abreast. -/
theorem abreast_of_strings
    (hStrings :
      ∀ (depth : Nat) {place other : Cursor},
        pairing.Twin 0 place other →
          place.current.kind = .string ∨
              other.current.kind = .string →
            pairing.Relates (.inside 0)
              (Value.SameBut fun _ _ => True)
              (Embedded.value strict (depth + 1))
              (Embedded.value strict (depth + 1)) place other) :
    pairing.Abreast strict strict fun _ _ _ => True where
  embedded hTwin _ hKind :=
    .advance hTwin (hKind ▸ nofun) fun _ hNext =>
      .bind hNext (.value hStrings Embedded.maxDepth hNext)
        fun _ _ _ _ _ _ _ hEnd =>
          .spanned hEnd.of_zero _ (.embedded trivial)

/- A run beside itself. -/
def alone (source : List Token) : Pairing where
  source := source
  first := []
  second := []
  barred := False
  ignored error := error.cause = .notJson
  diverted _ _ _ := False
  empty_iff := Iff.rfl
  whole _ := id
  waits hDiverted _ := hDiverted
  goesOn hDiverted _ := hDiverted
  takes hFirst _ _ _ _ := absurd hFirst (Cursor.rest_ne_nil _)

/-
  A run over some tokens, and one that finds at most one token
  before the end where the first finds a given token and what
  comes after it. The second run is diverted once it has taken
  that token.
-/
def probe
    (source : List Token)
    (found : Token)
    (back : List Token)
    (token? : Option Token)
    (close : Token)
    (hClose : close.kind = .endOfInput) :
    Pairing where
  source := source
  first := found :: back
  second := token?.toList ++ [close]
  barred := True
  ignored error := error.cause = .notJson
  diverted _ error stop :=
    token? ≠ none ∧
      ((∃ found ∈ error, found.isDepthLimit = true) ∨
        (stop.fuel ≤ 1 ∧
          ∀ found ∈ error, found.cause ≠ .notJson))
  empty_iff := by simp
  whole hNone := by cases hNone
  waits hDiverted _ := hDiverted
  goesOn := by
    rintro place start stop error ⟨hToken, hStart⟩ hStop
    rcases hStart with ⟨_, ⟨⟩, -⟩ | ⟨hFuel, -⟩
    exact ⟨hToken, hStop.limited hFuel⟩
  takes := by
    rintro place other after stop error - hSecond - hEnd hStop
    cases token? with
    | none =>
        have hCurrent := (List.cons.inj hSecond).1
        exact absurd (hCurrent ▸ hClose) hEnd
    | some token =>
        have hAhead : other.ahead = [close] :=
          (List.cons.inj hSecond).2
        have hFuel : other.next.fuel ≤ 1 := by
          simp [Cursor.next, Cursor.fuel, hAhead]
        exact ⟨nofun, hStop.limited hFuel⟩

/- A run stays beside itself. -/
theorem abreast_alone
    (source : List Token)
    (strict : Bool) :
    (alone source).Abreast strict strict fun _ _ _ => True := by
  refine abreast_of_strings fun depth {place other} hTwin hKind => ?_
  have hBefore : place.rest ≠ (alone source).first :=
    Cursor.rest_ne_nil _
  have hPlace : place.current.kind = .string :=
    hKind.elim id fun hOther => hTwin.current_eq hBefore ▸ hOther
  exact .string (fun _ => id) hTwin hBefore hPlace depth

/- A run and one that finds a sample make the same of a string. -/
theorem relates_string_probe
    {source : List Token}
    {found : Token}
    {back : List Token}
    {token? : Option Token}
    {close : Token}
    (hClose : close.kind = .endOfInput)
    (hToken :
      ∀ token ∈ token?, token.kind = .string →
        ∀ depth, ∃ value,
          Embedded.stringValue strict (depth + 1) token =
            pure value)
    (depth : Nat)
    (hTwin :
      (probe source found back token? close hClose).Twin 0 place
        other)
    (hKind :
      place.current.kind = .string ∨ other.current.kind = .string) :
    (probe source found back token? close hClose).Relates
      (.inside 0) (Value.SameBut fun _ _ => True)
      (Embedded.value strict (depth + 1))
      (Embedded.value strict (depth + 1)) place other := by
  by_cases hFork : place.rest = found :: back
  · by_cases hPlace : place.current.kind = .string
    · have hPast :
          (probe source found back token? close hClose).Past
            place.next :=
        past_of_next hFork hTwin.closed (hPlace ▸ nofun)
          (List.suffix_refl _)
      unfold Relates
      rw [Embedded.value_of_string hPlace]
      rcases Embedded.stringValue_cases strict (depth + 1)
          place.current with
        ⟨value, hValue⟩ | ⟨-, text, -, -, hValue⟩ | hValue
      · rw [hValue]
        exact .inl hPast
      · rw [hValue]
        exact .inr (.inl hPast)
      · rw [hValue]
        exact .inl ⟨.inl rfl, fun hNone => by cases hNone⟩
    · have hOther := hKind.resolve_left hPlace
      refine .of_diverts fun after => ?_
      have hRest := hTwin.rest_eq hFork
      rw [Embedded.value_of_string hOther]
      cases token? with
      | none =>
          have hCurrent : other.current = close :=
            (List.cons.inj hRest).1
          rw [hCurrent, hClose] at hOther
          cases hOther
      | some token =>
          have hCurrent : other.current = token :=
            (List.cons.inj hRest).1
          have hAhead : other.ahead = [close] :=
            (List.cons.inj hRest).2
          rcases hToken token rfl (hCurrent ▸ hOther) depth with
            ⟨value, hValue⟩
          rw [hCurrent, hValue]
          refine ⟨nofun, .inr ⟨?_, nofun⟩⟩
          simp [Cursor.next, Cursor.fuel, hAhead]
  · have hPlace : place.current.kind = .string :=
      hKind.elim id fun hOther => hTwin.current_eq hFork ▸ hOther
    exact .string (fun _ => id) hTwin hFork hPlace depth

/- A run stays abreast of one that finds a sample. -/
theorem abreast_probe
    {source : List Token}
    {found : Token}
    {back : List Token}
    {token? : Option Token}
    {close : Token}
    (hClose : close.kind = .endOfInput)
    (hToken :
      ∀ token ∈ token?, token.kind = .string →
        ∀ depth, ∃ value,
          Embedded.stringValue strict (depth + 1) token =
            pure value) :
    (probe source found back token? close hClose).Abreast strict
      strict fun _ _ _ => True :=
  abreast_of_strings fun depth _ _ hTwin hKind =>
    relates_string_probe hClose hToken depth hTwin hKind

end Pairing

------------------------------------------------------------
-- The Beginning Of A Script
------------------------------------------------------------

section Beginning

variable {cursor : Cursor} (strict : Bool)

theorem script_apply (cursor : Cursor) :
    script strict cursor =
      (do
        let statements ←
          Production.statements (expression strict maxDepth)
            .endOfInput (cursor.ahead.length + 1)
        let close := (← current).span
        return Node.sequence statements ⟨.start, close.last⟩)
        cursor := rfl

/- The end alone is a script. -/
theorem script_of_end
    (hKind : cursor.current.kind = .endOfInput) :
    ∃ tree,
      script strict cursor =
        .ok tree (cursor.seeking [.endOfInput]) := by
  rw [script_apply, Production.statements_bind, check_bind_apply,
    decide_eq_true hKind]
  exact ⟨_, rfl⟩

/- A script is read beyond what begins its first statement. -/
theorem beyond_script
    (hClosed : cursor.Closed)
    (hStarts : cursor.current.kind.startsOperand = true) :
    (script strict).Beyond cursor cursor.next := by
  have hKind : cursor.current.kind ≠ .endOfInput := by
    intro hEnd
    rw [hEnd] at hStarts
    cases hStarts
  let place := cursor.seeking [.endOfInput]
  have hStatement :=
    Production.beyond_statement (show place.Closed from hClosed)
      hStarts strict maxDepth
  rw [Beyond, script_apply, Production.statements_bind,
    check_bind_apply, decide_eq_false hKind,
    ← Cursor.next_seeking cursor [.endOfInput]]
  exact hStatement.bind hClosed.next

theorem script_of_not_starts
    (hKind : cursor.current.kind ≠ .endOfInput)
    (hStarts : cursor.current.kind.startsOperand = false) :
    script strict cursor =
      (unexpected : Parse (Node Span))
        ((cursor.seeking [.endOfInput]).seeking
          TokenKind.operandStarts) := by
  let place := cursor.seeking [.endOfInput]
  have hPlace : place.current.kind.startsOperand = false := hStarts
  have hAhead :
      Production.isAssigned place.current place.following.kind =
        false := by
    refine Bool.eq_false_iff.mpr fun hAssigned => ?_
    have hName : cursor.current.kind = .identifier :=
      (Production.name_of_isAssigned hAssigned).1
    rw [hName] at hStarts
    cases hStarts
  have hExpression :
      expression strict maxDepth 0 place =
        (unexpected : Parse (Node Span))
          (place.seeking TokenKind.operandStarts) :=
    expression_of_not_startsOperand hPlace strict 999 0
  have hStatement :
      Production.statement (expression strict maxDepth) place =
        (unexpected : Parse (Node Span))
          (place.seeking TokenKind.operandStarts) := by
    rw [Production.statement_eq, lookahead_of_not_ahead hAhead,
      hExpression]
  rw [script_apply, Production.statements_bind, check_bind_apply,
    decide_eq_false hKind]
  exact bind_of_error hStatement _

end Beginning

------------------------------------------------------------
-- Other Tokens From A Place On
------------------------------------------------------------

section Replacing

variable {front back more : List Token} {found close : Token}

/- Closed tokens may go on in another way from any place on. -/
theorem AreClosed.replace
    (hTokens : AreClosed (front ++ found :: back))
    (hClose : close.kind = .endOfInput)
    (hMore : ∀ token ∈ more, token.kind ≠ .endOfInput) :
    AreClosed (front ++ (more ++ [close])) := by
  rcases hTokens with ⟨inner, last, hTokens, -, hInner⟩
  have hFront : ∀ token ∈ front, token ∈ inner := by
    rcases List.append_eq_append_iff.mp hTokens with
      ⟨rest, rfl, -⟩ | ⟨rest, rfl, hLast⟩
    · exact fun token hToken => List.mem_append_left _ hToken
    · cases rest with
      | nil =>
          rw [List.append_nil]
          exact fun token hToken => hToken
      | cons token rest => simp at hLast
  refine ⟨front ++ more, close, (List.append_assoc _ _ _).symm,
    hClose, fun token hToken => ?_⟩
  rcases List.mem_append.mp hToken with hToken | hToken
  · exact hInner token (hFront token hToken)
  · exact hMore token hToken

variable {strict : Bool} {token? : Option Token}

/- Before the fork both runs begin at the same place. -/
theorem twin_probe
    (hFront : front ≠ [])
    (hTokens : AreClosed (front ++ found :: back))
    (hClose : close.kind = .endOfInput)
    (hEnd : ∀ token ∈ token?, token.kind ≠ .endOfInput) :
    (Pairing.probe (front ++ found :: back) found back token?
          close hClose).Twin 0
      (Cursor.start (front ++ found :: back))
      (Cursor.start (front ++ (token?.toList ++ [close]))) := by
  have hOthers :
      AreClosed (front ++ (token?.toList ++ [close])) :=
    hTokens.replace hClose fun token hMem =>
      hEnd token (by simpa using hMem)
  refine
    { previous := ?_
      sought := ?_
      within := ?_
      level := ⟨front, hTokens.rest_start, hOthers.rest_start⟩
      free := ?_
      closed := hTokens.closed_start
      closedOther := hOthers.closed_start }
  · cases front with
    | nil => exact absurd rfl hFront
    | cons token front => rfl
  · cases front with
    | nil => exact absurd rfl hFront
    | cons token front => rfl
  · rw [hTokens.rest_start]
    exact List.suffix_refl _
  · cases front with
    | nil => exact absurd rfl hFront
    | cons token front => exact fun _ _ hSought => by cases hSought

/-
  After some tokens that are the same, one run goes on as
  before, and another one finds a sample or the end.
-/
theorem relates_probe
    (hFront : front ≠ [])
    (hTokens : AreClosed (front ++ found :: back))
    (hClose : close.kind = .endOfInput)
    (hEnd : ∀ token ∈ token?, token.kind ≠ .endOfInput)
    (hToken :
      ∀ token ∈ token?, token.kind = .string →
        ∀ depth, ∃ value,
          Embedded.stringValue strict (depth + 1) token =
            pure value) :
    (Pairing.probe (front ++ found :: back) found back token?
          close hClose).Relates .whole
      (Node.SameBut fun _ _ _ => True) (script strict)
      (script strict) (Cursor.start (front ++ found :: back))
      (Cursor.start
        (front ++ (token?.toList ++ [close]))) :=
  (Pairing.abreast_probe hClose hToken).relates_script
    (twin_probe hFront hTokens hClose hEnd)

end Replacing

------------------------------------------------------------
-- Expected Kinds
------------------------------------------------------------

/- An error says what was expected at a token instead of it. -/
def SyntaxError.IsUnexpected (error : SyntaxError) : Prop :=
  error.cause = .unexpected ∨ error.cause = .unexpectedInLiteral

/-
  After some tokens and one more, a script may end or go on:
  reading it up to there succeeds, or fails only at the end.
  The limit of nesting is set aside.
-/
def IsViable
    (strict : Bool)
    (front : List Token)
    (token close : Token) : Prop :=
  (∃ tree, parseTokens strict (front ++ [token, close]) = .ok tree) ∨
    (∃ error,
      FailsAt strict (front ++ [token, close]) (front.length + 1)
        error) ∨
    ∃ error,
      parseTokens strict (front ++ [token, close]) =
          .error error ∧
        error.isDepthLimit = true

theorem SyntaxError.IsUnexpected.not_ignored
    {error : SyntaxError}
    (hCause : error.IsUnexpected) :
    ¬ (error.isDepthLimit = true ∨ error.cause = .notJson) := by
  rw [isDepthLimit]
  rcases hCause with hCause | hCause <;> simp [hCause]

section Expected

variable {strict : Bool}
variable {error : SyntaxError} {after : Cursor}

/- Something is expected wherever a token is unexpected. -/
theorem expected_ne_nil
    {tokens : List Token}
    (hTokens : AreClosed tokens)
    (hError :
      script strict (Cursor.start tokens) = .error error after)
    (hCause : error.IsUnexpected) :
    error.expected ≠ [] := by
  have hRelates :
      (Pairing.alone tokens).Relates .whole
        (Node.SameBut fun _ _ _ => True) (script strict)
        (script strict) (Cursor.start tokens)
        (Cursor.start tokens) :=
    (Pairing.abreast_alone tokens strict).relates_script
      (.start hTokens rfl rfl)
  rcases hRelates.of_error rfl hError with
    ⟨hIgnored, -⟩ | hDiverts | ⟨_, _, -, hEchoes⟩
  · exact absurd hIgnored hCause.not_ignored
  · exact (hDiverts.of_error hError).elim
  · exact hEchoes.informed

/- Where only the end can fail, what comes before it is viable. -/
theorem viable_of_stop
    {front : List Token}
    {token close : Token}
    (hTokens : AreClosed (front ++ [token, close]))
    (hStop :
      ∀ error stop,
        script strict (Cursor.start (front ++ [token, close])) =
            .error error stop →
          error.isDepthLimit = true ∨
            (stop.fuel ≤ 1 ∧ error.cause ≠ .notJson)) :
    IsViable strict front token close := by
  cases hRun :
      script strict (Cursor.start (front ++ [token, close])) with
  | ok tree stop => exact .inl ⟨tree, parseTokens_eq_ok_iff.mpr ⟨stop, hRun⟩⟩
  | error error stop =>
      right
      cases hDepth : error.isDepthLimit with
      | true =>
          exact .inr
            ⟨error, parseTokens_eq_error_iff.mpr ⟨stop, hRun⟩,
              hDepth⟩
      | false =>
          rcases exists_failsAt hTokens hRun hDepth with
            ⟨index, hFails⟩
          rcases hStop error stop hRun with hLimit | ⟨hFuel, hCause⟩
          · rw [hDepth] at hLimit
            cases hLimit
          have hLength := hFails.length_eq hRun
          have hPos := stop.fuel_pos
          rw [if_neg hCause, List.length_append] at hLength
          simp only [List.length_cons, List.length_nil] at hLength
          have hIndex : index = front.length + 1 := by omega
          exact .inl ⟨error, hIndex ▸ hFails⟩

/- Only what can begin a statement is expected where a script begins. -/
theorem startsOperand_of_expected
    {tokens : List Token}
    {kind : TokenKind}
    (hTokens : AreClosed tokens)
    (hError :
      script strict (Cursor.start tokens) = .error error after)
    (hRest : after.rest = tokens)
    (hCause : error.IsUnexpected)
    (hKind : kind ∈ error.expected)
    (hEnd : kind ≠ .endOfInput) :
    kind.startsOperand = true := by
  have hClosed := hTokens.closed_start
  have hFirst :
      (Cursor.start tokens).current.kind ≠ .endOfInput := by
    intro hFirst
    rcases script_of_end strict hFirst with ⟨tree, hTree⟩
    rw [hTree] at hError
    cases hError
  cases hStarts : (Cursor.start tokens).current.kind.startsOperand with
  | true =>
      rcases (beyond_script strict hClosed hStarts).of_error hError with
        hDepth | ⟨hSuffix, -⟩
      · exact absurd (.inl hDepth) hCause.not_ignored
      have hAfter : after.fuel = (Cursor.start tokens).fuel := by
        rw [← Cursor.length_rest, hRest, ← Cursor.length_rest,
          hTokens.rest_start]
      have hLess := hClosed.fuel_next_lt hFirst
      have hFuel := Cursor.fuel_le_of_suffix hSuffix
      omega
  | false =>
      rw [script_of_not_starts strict hFirst hStarts] at hError
      cases hError
      have hSought := Cursor.mem_expected.mp hKind
      have hNone : (Cursor.start tokens).sought = [] := by
        cases tokens <;> rfl
      simp only [Cursor.seeking, hNone, List.mem_append,
        List.mem_singleton, List.not_mem_nil, or_false, false_or,
        hEnd] at hSought
      exact List.contains_iff_mem.mpr hSought

/- What is expected where a script begins is viable there. -/
theorem viable_beginning
    {tokens : List Token}
    {kind : TokenKind}
    {close : Token}
    (hTokens : AreClosed tokens)
    (hError :
      script strict (Cursor.start tokens) = .error error after)
    (hRest : after.rest = tokens)
    (hCause : error.IsUnexpected)
    (hKind : kind ∈ error.expected)
    (hClose : close.kind = .endOfInput)
    (hEnd : kind ≠ .endOfInput) :
    IsViable strict [] kind.sample close := by
  have hStarts :=
    startsOperand_of_expected hTokens hError hRest hCause hKind hEnd
  have hSample : kind.sample.kind = kind := kind.kind_sample
  have hOthers : AreClosed ([] ++ [kind.sample, close]) :=
    ⟨[kind.sample], close, rfl, hClose, by simpa [hSample] using hEnd⟩
  refine viable_of_stop hOthers fun error stop hStop => ?_
  have hBeyond :=
    (beyond_script strict hOthers.closed_start
      (show kind.sample.kind.startsOperand = true from
        hSample.symm ▸ hStarts)).of_error hStop
  exact hBeyond.imp_right fun hFound =>
    ⟨Cursor.fuel_le_of_suffix hFound.1,
      hFound.2.not_notJson (Nat.le_refl _)⟩

section Further

variable {front back : List Token}
variable {close : Token}
variable (hFront : front ≠ [])
variable (hTokens : AreClosed (front ++ error.found :: back))
variable
  (hError :
    script strict (Cursor.start (front ++ error.found :: back)) =
      .error error after)
variable (hRest : after.rest = error.found :: back)
variable (hCause : error.IsUnexpected)
variable (hClose : close.kind = .endOfInput)

include hFront hTokens hError hRest hCause hClose

/-
  A run that finds what was expected where another run fails
  goes beyond that place, or it ends there and succeeds.
-/
theorem diverts_or_finishes
    (token? : Option Token)
    (hEnd : ∀ token ∈ token?, token.kind ≠ .endOfInput)
    (hToken :
      ∀ token ∈ token?, token.kind = .string →
        ∀ depth, ∃ value,
          Embedded.stringValue strict (depth + 1) token =
            pure value)
    (hExpected : (token?.getD close).kind ∈ error.expected) :
    let pairing :=
      Pairing.probe (front ++ error.found :: back) error.found back
        token? close hClose
    let ending :=
      script strict
        (Cursor.start (front ++ (token?.toList ++ [close])))
    pairing.Diverts after ending ∨ pairing.Finishes ending := by
  have hRelates :=
    relates_probe hFront hTokens hClose hEnd hToken
  unfold Pairing.Relates at hRelates
  rw [hError] at hRelates
  rcases hRelates with
    ⟨hIgnored, -⟩ | hPast | hDiverts | ⟨-, hFinishes⟩ |
      ⟨same, stop, hSame, hEchoes⟩
  · exact absurd hIgnored hCause.not_ignored
  · rw [Pairing.Past, ← Cursor.length_rest, hRest] at hPast
    exact absurd hPast (Nat.lt_irrefl _)
  · exact .inl hDiverts
  · exact .inr hFinishes
  · have hStop : stop.current = token?.getD close := by
      rcases hEchoes.level with ⟨before, hPlace, hOther⟩
      have hBefore : before = [] := by
        rw [hRest] at hPlace
        exact List.self_eq_append_left.mp hPlace
      rw [hBefore] at hOther
      cases token? <;> exact (List.cons.inj hOther).1
    rw [← hStop] at hExpected
    exact absurd hExpected (hEchoes.free hRest trivial)

/- Where the end is expected, a script may end. -/
theorem viable_end
    (hKind : .endOfInput ∈ error.expected) :
    ∃ tree, parseTokens strict (front ++ [close]) = .ok tree := by
  have hEnds :=
    diverts_or_finishes hFront hTokens hError hRest hCause hClose
      none nofun nofun (hClose.symm ▸ hKind)
  rcases hEnds with hDiverts | ⟨tree, stop, hTree, -⟩
  · -- No token has been taken that could lead the run elsewhere.
    unfold Pairing.Diverts at hDiverts
    split at hDiverts <;> exact absurd rfl hDiverts.1
  · exact ⟨tree, parseTokens_eq_ok_iff.mpr ⟨stop, hTree⟩⟩

/- Where a token of a kind is expected, a script may go on with one. -/
theorem viable_sample
    {kind : TokenKind}
    (hKind : kind ∈ error.expected)
    (hEnd : kind ≠ .endOfInput) :
    IsViable strict front kind.sample close := by
  have hSample : kind.sample.kind = kind := kind.kind_sample
  have hOthers :
      AreClosed (front ++ ([kind.sample] ++ [close])) :=
    hTokens.replace hClose (by simpa [hSample] using hEnd)
  have hEnds :=
    diverts_or_finishes hFront hTokens hError hRest hCause hClose
      (some kind.sample) (by simpa [hSample] using hEnd) ?_
      (by simpa [hSample] using hKind)
  · refine viable_of_stop hOthers fun error stop hStop => ?_
    rcases hEnds with hDiverts | ⟨tree, last, hTree, -⟩
    · rcases (hDiverts.of_error hStop).2 with
        ⟨_, ⟨⟩, hDepth⟩ | ⟨hFuel, hJson⟩
      · exact .inl hDepth
      · exact .inr ⟨hFuel, hJson error rfl⟩
    · cases hTree.symm.trans hStop
  · rintro _ ⟨⟩ hString
    rw [hSample] at hString
    rw [hString]
    exact stringValue_sample strict

end Further

end Expected

/-
  Whatever is told to be expected where a token is unexpected is
  possible there, and something always is: a script may end
  before that token where the end is expected, and a token of
  any other expected kind may stand in its place.
-/
theorem viable_of_expected
    {strict : Bool}
    {tokens : List Token}
    {index : Nat}
    {error : SyntaxError}
    (hTokens : AreClosed tokens)
    (hFails : FailsAt strict tokens index error)
    (hCause : error.IsUnexpected) :
    error.expected ≠ [] ∧
      ∀ kind ∈ error.expected, ∀ close : Token,
        close.kind = .endOfInput →
          (kind = .endOfInput →
            ∃ tree,
              parseTokens strict (tokens.take index ++ [close]) =
                .ok tree) ∧
          (kind ≠ .endOfInput →
            ∃ token : Token,
              token.kind = kind ∧
                IsViable strict (tokens.take index) token close) := by
  rcases hFails with ⟨front, back, after, rfl, rfl, hError, hRest⟩
  rw [if_neg fun hString => hCause.not_ignored (.inr hString)]
    at hRest
  rw [List.take_left]
  refine
    ⟨expected_ne_nil hTokens hError hCause,
      fun kind hKind close hClose => ?_⟩
  by_cases hFront : front = []
  · subst hFront
    refine ⟨fun _ => ?_, fun hEnd =>
      ⟨kind.sample, kind.kind_sample,
        viable_beginning hTokens hError hRest hCause hKind hClose
          hEnd⟩⟩
    rcases script_of_end strict
        (show (Cursor.start [close]).current.kind = .endOfInput
          from hClose) with
      ⟨tree, hTree⟩
    exact ⟨tree, parseTokens_eq_ok_iff.mpr ⟨_, hTree⟩⟩
  · exact
      ⟨fun hEnd =>
        viable_end hFront hTokens hError hRest hCause hClose
          (hEnd ▸ hKind),
      fun hEnd =>
        ⟨kind.sample, kind.kind_sample,
          viable_sample hFront hTokens hError hRest hCause hClose
            hKind hEnd⟩⟩

/- The tokens of a script with a bracket that was never opened. -/
def strayBracket : List Token :=
  [⟨.identifier, "x", ⟨.start, .start⟩, none⟩,
    ⟨.rightBracket, "]", ⟨.start, .start⟩, none⟩,
    .endAt .start]

/- Before a stray bracket a script may go on as it is told to. -/
theorem viable_of_expected_bracket :
    AreClosed strayBracket ∧
      ∃ error,
        FailsAt false strayBracket 1 error ∧
          error.IsUnexpected ∧
          .plus ∈ error.expected ∧
          ∃ token : Token,
            token.kind = .plus ∧
              IsViable false (strayBracket.take 1) token
                (.endAt .start) := by
  have hClosed : AreClosed strayBracket :=
    ⟨strayBracket.dropLast, .endAt .start, rfl, rfl, by decide⟩
  have hFails : ∃ error,
      FailsAt false strayBracket 1 error ∧ error.IsUnexpected ∧
        .plus ∈ error.expected :=
    ⟨_, ⟨strayBracket.take 1, strayBracket.drop 2, _, rfl, rfl, rfl,
        rfl⟩, .inl rfl, by decide⟩
  rcases hFails with ⟨error, hError, hCause, hPlus⟩
  exact ⟨hClosed, error, hError, hCause, hPlus,
    ((viable_of_expected hClosed hError hCause).2 .plus hPlus
      (.endAt .start) rfl).2 nofun⟩

end ExperimentScript
