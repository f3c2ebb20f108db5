import ExperimentScript.Proofs.Parser.Ending
import ExperimentScript.Proofs.Parser.Expected

/-
  Two runs over tokens that differ from some place on.

  The runs read the same tokens up to a fork, and what the
  first does up to there does not depend on what comes after
  the fork. If the token at the fork is the same, neither does
  what it says about that token. If it is another one, then
  the second run does the same, or the kind of token that it
  finds was looked for at the fork.

  There are a few places where reading does not say what it
  looks for: `Overlooks` lists them. The limit of nesting is
  set aside.

  Key definitions include:
    * `ExperimentScript.Overlooks`
    * `ExperimentScript.Fork`
    * `ExperimentScript.Fork.Twin`
    * `ExperimentScript.Fork.Relates`

  Main declarations:
    * `ExperimentScript.Fork.Relates.bind`
    * `ExperimentScript.Fork.Relates.decide`
    * `ExperimentScript.Fork.Relates.lookahead`
-/

namespace ExperimentScript

------------------------------------------------------------
-- What Reading Does Not Look For
------------------------------------------------------------

/- The kinds after which a statement may begin. -/
def TokenKind.beginsStatement (kind : TokenKind) : Bool :=
  kind = .semicolon || kind = .leftBrace || kind = .rightBrace

/- The kinds after which a case may begin. -/
def TokenKind.beginsCase (kind : TokenKind) : Bool :=
  kind = .semicolon || kind = .leftBrace || kind.endsOperand

/-
  After some tokens a kind may be read that is not among those
  that were looked for: a sign after a name at the beginning
  of a statement or of the arguments of a call, what begins an
  expression after a word that may be a connective, and what
  closes a list or map of constants that has just been opened.
-/
inductive Overlooks : List Token → TokenKind → Prop where
  | assignment
      {before : List Token}
      {name : Token}
      {kind : TokenKind}
      (hBefore :
        ∀ token ∈ before.getLast?,
          token.kind.beginsStatement = true)
      (hSign : Production.isAssigned name kind = true) :
      Overlooks (before ++ [name]) kind
  | argument
      {before : List Token}
      {opening name : Token}
      {kind : TokenKind}
      (hOpening : opening.kind = .leftParen)
      (hSign : Production.isNamed name kind = true) :
      Overlooks (before ++ [opening, name]) kind
  | case
      {before : List Token}
      {word : Token}
      {kind : TokenKind}
      (hBefore :
        ∀ token ∈ before.getLast?, token.kind.beginsCase = true)
      (hWord : Production.isConnective "case" word kind = true) :
      Overlooks (before ++ [word]) kind
  | consequence
      {before : List Token}
      {closing word : Token}
      {kind : TokenKind}
      (hClosing : closing.kind = .rightParen)
      (hWord : Production.isConnective "then" word kind = true) :
      Overlooks (before ++ [closing, word]) kind
  | list
      {before : List Token}
      {opening : Token}
      (hBefore :
        ∀ token ∈ before.getLast?, token.kind.endsOperand = false)
      (hOpening : opening.kind = .leftBracket) :
      Overlooks (before ++ [opening]) .rightBracket
  | map
      {before : List Token}
      {opening : Token}
      (hOpening : opening.kind = .leftBrace) :
      Overlooks (before ++ [opening]) .rightBrace

------------------------------------------------------------
-- Forks
------------------------------------------------------------

/- The tokens from the one on that an error is about. -/
def Cursor.left
    (stop : Cursor)
    (error : SyntaxError) :
    List Token :=
  if error.cause = .notJson then error.found :: stop.rest
  else stop.rest

/-
  The tokens that two runs both read, and for each of them the
  token at the fork with those after it.
-/
structure Fork where
  front : List Token
  found : Token
  back : List Token
  other : Token
  backOther : List Token

/-
  What a step reads: part of an embedded constant, in which
  nothing is looked for in advance, part of a script or the
  whole script.
-/
inductive Fork.Part where
  | constant
  | inner
  | whole

/- A step may stand before the end of a larger one. -/
class Fork.Part.Within (part larger : Fork.Part) : Prop where
  inside : part ≠ .whole
  alike : part = .constant ↔ larger = .constant

namespace Fork

instance : Part.Within .constant .constant := ⟨by simp, by simp⟩

instance : Part.Within .inner .inner := ⟨by simp, by simp⟩

instance : Part.Within .inner .whole := ⟨by simp, by simp⟩

variable (fork : Fork)

/- The tokens of the first run from the fork on. -/
def first : List Token :=
  fork.found :: fork.back

/- The tokens of the second run from the fork on. -/
def second : List Token :=
  fork.other :: fork.backOther

/- Tokens that are left when the fork has been passed. -/
def Past (tokens : List Token) : Prop :=
  tokens.length < fork.first.length

/-
  The second run may do something else at the fork: it finds
  another token there, and its kind was looked for or is one
  that reading does not look for.
-/
def Missed
    (part : Part)
    (sought : List TokenKind) : Prop :=
  fork.found ≠ fork.other ∧
    (Overlooks fork.front fork.other.kind ∨
      (part ≠ .constant ∧ fork.other.kind ∈ sought))

/- The first run ends at the fork, where the second may go on. -/
def Strays (part : Part) (after : Cursor) : Prop :=
  after.rest = fork.first ∧ fork.Missed part after.sought

/-
  The first run fails, and the second may not: the first fails
  at the fork, or in a way that tells nothing of what was
  expected.
-/
def Excuses (error : SyntaxError) (after : Cursor) : Prop :=
  fork.found ≠ fork.other ∧
    (¬ error.IsUnexpected ∨
      (after.left error = fork.first ∧
        (Overlooks fork.front fork.other.kind ∨
          fork.other.kind ∈ error.expected)))

/-
  Corresponding places of two runs. The token before them is
  the last one that both have read, unless the first run has
  come to the fork alone.
-/
structure Twin (place other : Cursor) : Prop where
  previous : other.previous = place.previous
  sought : other.sought = place.sought
  level :
    ∃ before,
      place.rest = before ++ fork.first ∧
        other.rest = before ++ fork.second
  passed :
    (∃ tokens,
      tokens ++ place.rest = fork.front ++ fork.first ∧
        tokens.getLast?.getD place.current = place.previous) ∨
      (place.rest = fork.first ∧ fork.Missed .inner place.sought)
  closed : place.Closed
  closedOther : other.Closed

/- Errors of two runs about corresponding tokens that say the same. -/
structure Echoes
    (error : SyntaxError)
    (after : Cursor)
    (same : SyntaxError)
    (stop : Cursor) : Prop where
  cause : same.cause = error.cause
  expected : same.expected = error.expected
  level :
    ∃ before,
      after.left error = before ++ fork.first ∧
        stop.left same = before ++ fork.second
  found : (after.left error).head? = some error.found
  foundOther : (stop.left same).head? = some same.found

/-
  What was looked for at a place is not forgotten while no
  token is taken.
-/
def Keeps
    (part : Part)
    (place : Cursor)
    (tokens : List Token)
    (sought : List TokenKind) : Prop :=
  part ≠ .constant →
    tokens = place.rest → place.sought ⊆ sought

/-
  A step of each of two runs: nothing is said where the first
  passes the fork. Else both do the same, or the second may do
  something else at the fork.
-/
def Relates
    {α : Type}
    (part : Part)
    (first second : Parse α)
    (place other : Cursor) : Prop :=
  match first place with
  | .ok result after =>
    fork.Past after.rest ∨ fork.Strays part after ∨
      (part = .whole ∧ after.rest = fork.first) ∨
      (Keeps part place after.rest after.sought ∧
        ∃ stop,
          second other = .ok result stop ∧ fork.Twin after stop)
  | .error error after =>
    error.isDepthLimit = true ∨ fork.Past (after.left error) ∨
      fork.Excuses error after ∨
      ((error.IsUnexpected →
          Keeps part place (after.left error) error.expected) ∧
        ∃ same stop,
          second other = .error same stop ∧
            fork.Echoes error after same stop)

/-
  Nothing is said of the second run: the first passes the fork,
  or the second may do something else there.
-/
def Alone
    {α : Type}
    (part : Part)
    (step : Parse α)
    (place : Cursor) : Prop :=
  match step place with
  | .ok _ after =>
    fork.Past after.rest ∨ fork.Strays part after ∨
      (part = .whole ∧ after.rest = fork.first)
  | .error error after =>
    error.isDepthLimit = true ∨ fork.Past (after.left error) ∨
      fork.Excuses error after

variable {fork}

------------------------------------------------------------
-- Places
------------------------------------------------------------

/- What is among the tokens from the fork on is at the fork or past it. -/
theorem past_or_eq
    {tokens : List Token}
    (hTokens : tokens <:+ fork.first) :
    fork.Past tokens ∨ tokens = fork.first := by
  rcases Nat.lt_or_ge tokens.length fork.first.length with
    hPast | hLength
  · exact .inl hPast
  · exact .inr (hTokens.eq_of_length_le hLength)

theorem Past.of_suffix
    {tokens fewer : List Token}
    (hPast : fork.Past tokens)
    (hFewer : fewer <:+ tokens) :
    fork.Past fewer :=
  Nat.lt_of_le_of_lt hFewer.length_le hPast

/- What is beyond the token at the fork is past the fork. -/
theorem past_next
    {place : Cursor}
    (hFork : place.rest = fork.first)
    (hClosed : place.Closed)
    (hKind : place.current.kind ≠ .endOfInput) :
    fork.Past place.next.rest := by
  rw [Past, ← hFork]
  exact hClosed.fuel_next_lt hKind

namespace Missed

variable {part larger : Part} {sought more : List TokenKind}

/- What was looked for is still looked for later. -/
theorem mono
    [hWithin : part.Within larger]
    (hMissed : fork.Missed part sought)
    (hSought : larger ≠ .constant → sought ⊆ more) :
    fork.Missed larger more := by
  refine ⟨hMissed.1, hMissed.2.imp_right ?_⟩
  rintro ⟨hPart, hKind⟩
  have hLarger := mt hWithin.alike.mpr hPart
  exact ⟨hLarger, hSought hLarger hKind⟩

end Missed

namespace Twin

variable {place other : Cursor}

/- Both runs are at their forks, or at the same token before them. -/
theorem fork_or_before
    (hTwin : fork.Twin place other) :
    (place.rest = fork.first ∧ other.rest = fork.second) ∨
      (place.rest ≠ fork.first ∧
        other.current = place.current ∧
        ∃ before,
          place.ahead = before ++ fork.first ∧
            other.ahead = before ++ fork.second) := by
  rcases hTwin.level with ⟨before, hPlace, hOther⟩
  cases before with
  | nil => exact .inl ⟨hPlace, hOther⟩
  | cons token before =>
      rw [Cursor.rest, List.cons_append, List.cons.injEq]
        at hPlace hOther
      refine .inr ⟨fun hFork => ?_, ?_, before, hPlace.2, hOther.2⟩
      · have hLength := congrArg List.length hFork
        rw [Cursor.rest, hPlace.2, List.length_cons,
          List.length_append] at hLength
        omega
      · exact hOther.1.trans hPlace.1.symm

/- The first run is at its fork only if the second one is. -/
theorem rest_eq
    (hTwin : fork.Twin place other)
    (hFork : place.rest = fork.first) :
    other.rest = fork.second := by
  rcases hTwin.fork_or_before with hBoth | hBefore
  · exact hBoth.2
  · exact absurd hFork hBefore.1

theorem current_fork
    (hTwin : fork.Twin place other)
    (hFork : place.rest = fork.first) :
    place.current = fork.found ∧ other.current = fork.other :=
  ⟨(List.cons.inj hFork).1,
    (List.cons.inj (hTwin.rest_eq hFork)).1⟩

/- Before the forks both runs are at the same token. -/
theorem current_eq
    (hTwin : fork.Twin place other)
    (hBefore : place.rest ≠ fork.first) :
    other.current = place.current := by
  rcases hTwin.fork_or_before with hFork | hSame
  · exact absurd hFork.1 hBefore
  · exact hSame.2.1

/- Both runs have as far to go to their forks. -/
theorem fuel_eq
    (hTwin : fork.Twin place other) :
    other.fuel + fork.first.length =
      place.fuel + fork.second.length := by
  rcases hTwin.level with ⟨before, hPlace, hOther⟩
  rw [← Cursor.length_rest, ← Cursor.length_rest, hPlace, hOther,
    List.length_append, List.length_append]
  omega

theorem seeking
    (hTwin : fork.Twin place other)
    (kinds : List TokenKind) :
    fork.Twin (place.seeking kinds) (other.seeking kinds) where
  previous := hTwin.previous
  sought := congrArg (· ++ kinds) hTwin.sought
  level := hTwin.level
  passed :=
    hTwin.passed.imp_right fun hMissed =>
      ⟨hMissed.1,
        hMissed.2.mono fun _ => List.subset_append_left _ _⟩
  closed := hTwin.closed
  closedOther := hTwin.closedOther

/- Where the tokens that follow differ, they are those at the forks. -/
theorem next_fork
    (hTwin : fork.Twin place other)
    (hBefore : place.rest ≠ fork.first)
    (hFollowing : place.following ≠ other.following) :
    place.next.rest = fork.first ∧
      place.following = fork.found ∧
      other.following = fork.other := by
  rcases hTwin.fork_or_before with
    hFork | ⟨-, -, before, hAhead, hOther⟩
  · exact absurd hFork.1 hBefore
  unfold Cursor.following at hFollowing ⊢
  rw [hAhead, hOther] at hFollowing ⊢
  cases before with
  | cons token before => exact absurd rfl hFollowing
  | nil =>
      refine ⟨?_, rfl, rfl⟩
      rw [List.nil_append, first] at hAhead
      simp only [Cursor.next, Cursor.rest, hAhead, first]

/- After the same token before the forks both runs are at corresponding places. -/
theorem next
    (hTwin : fork.Twin place other)
    (hBefore : place.rest ≠ fork.first)
    (hKind : place.current.kind ≠ .endOfInput) :
    fork.Twin place.next other.next := by
  rcases hTwin.fork_or_before with
    hFork | ⟨-, hSame, before, hAhead, hOther⟩
  · exact absurd hFork.1 hBefore
  have hKindOther : other.current.kind ≠ .endOfInput :=
    hSame.symm ▸ hKind
  have hRest := hTwin.closed.rest_eq hKind
  have hRestOther := hTwin.closedOther.rest_eq hKindOther
  have hPrevious := hTwin.closed.previous_next hKind
  rcases hTwin.passed.resolve_right fun hMissed =>
      hBefore hMissed.1 with ⟨tokens, hTokens, -⟩
  refine
    { previous := ?_
      sought := by rw [Cursor.sought_next, Cursor.sought_next]
      level := ⟨before, ?_, ?_⟩
      passed := .inl ⟨tokens ++ [place.current], ?_, ?_⟩
      closed := hTwin.closed.next
      closedOther := hTwin.closedOther.next }
  · rw [hPrevious, hTwin.closedOther.previous_next hKindOther, hSame]
  · exact (List.cons.inj hRest).2.symm.trans hAhead
  · exact (List.cons.inj hRestOther).2.symm.trans hOther
  · rw [← hTokens, hRest, List.append_assoc, List.singleton_append]
  · rw [List.getLast?_concat, Option.getD_some, hPrevious]

/- Right before the fork the last token that both runs read is at the place. -/
theorem front_eq
    (hTwin : fork.Twin place other)
    (hKind : place.current.kind ≠ .endOfInput)
    (hNext : place.next.rest = fork.first) :
    ∃ before,
      fork.front = before ++ [place.current] ∧
        before.getLast?.getD place.current = place.previous := by
  have hRest := hTwin.closed.rest_eq hKind
  rw [hNext] at hRest
  have hBefore : place.rest ≠ fork.first :=
    fun hFork => List.cons_ne_self _ _ (hRest.symm.trans hFork)
  rcases hTwin.passed.resolve_right fun hMissed =>
      hBefore hMissed.1 with ⟨before, hTokens, hLast⟩
  refine ⟨before, ?_, hLast⟩
  rw [hRest, ← List.singleton_append, ← List.append_assoc] at hTokens
  exact (List.append_cancel_right hTokens).symm

/- What holds of the token before the place holds of the one before it. -/
theorem front_last
    (hTwin : fork.Twin place other)
    (hKind : place.current.kind ≠ .endOfInput)
    (hNext : place.next.rest = fork.first)
    (holds : TokenKind → Bool)
    (hPrevious : holds place.previous.kind = true) :
    ∃ before,
      fork.front = before ++ [place.current] ∧
        ∀ token ∈ before.getLast?, holds token.kind = true := by
  rcases hTwin.front_eq hKind hNext with ⟨before, hFront, hLast⟩
  refine ⟨before, hFront, fun token hToken => ?_⟩
  rw [Option.mem_def.mp hToken, Option.getD_some] at hLast
  rw [hLast]
  exact hPrevious

/- Before it stands the one before the place. -/
theorem front_pair
    (hTwin : fork.Twin place other)
    (hKind : place.current.kind ≠ .endOfInput)
    (hNext : place.next.rest = fork.first)
    (hDiffer : place.previous.kind ≠ place.current.kind) :
    ∃ before,
      fork.front = before ++ [place.previous, place.current] := by
  rcases hTwin.front_eq hKind hNext with ⟨tokens, hFront, hLast⟩
  rcases List.eq_nil_or_concat tokens with rfl | ⟨before, last, rfl⟩
  · exact absurd (congrArg Token.kind hLast).symm hDiffer
  · rw [List.concat_eq_append, List.getLast?_concat,
      Option.getD_some] at hLast
    refine ⟨before, ?_⟩
    rw [hFront, List.concat_eq_append, hLast, List.append_assoc]
    rfl

/-
  A run that comes to the fork alone has a twin that waits
  there.
-/
theorem idle
    {part : Part}
    {after : Cursor}
    (hTwin : fork.Twin place other)
    (hClosed : after.Closed)
    (hFork : after.rest = fork.first)
    (hMissed : fork.Missed part after.sought) :
    fork.Twin after
      ⟨after.previous, fork.other, fork.backOther, after.sought⟩ :=
  { previous := rfl
    sought := rfl
    level := ⟨[], hFork, rfl⟩
    passed :=
      .inr ⟨hFork, hMissed.1, hMissed.2.imp_right fun hSought =>
        ⟨by simp, hSought.2⟩⟩
    closed := hClosed
    closedOther :=
      hTwin.closedOther.of_suffix
        (hTwin.level.elim fun before hLevel =>
          ⟨before, hLevel.2.symm⟩) }

end Twin

------------------------------------------------------------
-- Where Steps End
------------------------------------------------------------

open Parse

variable {α β : Type}
variable {part : Part}
variable {place other : Cursor}

/- An error is about the tokens from a place on. -/
theorem left_suffix
    {step : Parse α}
    {error : SyntaxError}
    {cursor after : Cursor}
    (hStep : step.Beyond cursor place)
    (hError : step cursor = .error error after) :
    error.isDepthLimit = true ∨
      (after.left error <:+ place.rest ∧
        (after.left error).head? = some error.found) := by
  refine (hStep.of_error hError).imp_right ?_
  rintro ⟨hRest, ⟨hCause, hFound⟩ | ⟨hCause, -, hString⟩⟩
  · rw [Cursor.left, if_neg hCause, hFound]
    exact ⟨hRest, rfl⟩
  · rw [Cursor.left, if_pos hCause]
    exact ⟨hString, rfl⟩

/- Where a token has been taken, nothing has to be kept. -/
theorem keeps_of_next
    {tokens : List Token}
    {sought : List TokenKind}
    (hClosed : place.Closed)
    (hKind : place.current.kind ≠ .endOfInput)
    (hTokens : tokens <:+ place.next.rest) :
    Keeps part place tokens sought := by
  rintro - rfl
  exact absurd hTokens.length_le
    (Nat.not_le.mpr (hClosed.fuel_next_lt hKind))

/- Without a second run it only matters what the first does. -/
theorem Alone.relates
    {first firstSame third : Parse α}
    {start another : Cursor}
    (hAlone : fork.Alone part first place)
    (hFirst : firstSame start = first place) :
    fork.Relates part firstSame third start another := by
  unfold Alone at hAlone
  unfold Relates
  rw [hFirst]
  cases hStep : first place with
  | ok result after =>
      rw [hStep] at hAlone
      exact hAlone.imp_right (Or.imp_right .inl)
  | error error after =>
      rw [hStep] at hAlone
      exact hAlone.imp_right (Or.imp_right .inl)

/- Where the first run has passed the fork, nothing is said. -/
theorem alone_of_past
    {step : Parse α}
    {beyond : Cursor}
    (hStep : step.Beyond place beyond)
    (hPast : fork.Past beyond.rest) :
    fork.Alone part step place := by
  unfold Alone
  cases hEnd : step place with
  | ok result after =>
      exact .inl (hPast.of_suffix (hStep.of_ok hEnd))
  | error error after =>
      exact (left_suffix hStep hEnd).imp_right fun hLeft =>
        .inl (hPast.of_suffix hLeft.1)

/- Up to the fork the first run goes on alone where a kind is overlooked. -/
theorem alone_of_overlooks
    {step : Parse α}
    {beyond : Cursor}
    (hStep : step.Beyond place beyond)
    (hBeyond : beyond.rest = fork.first)
    (hDiffer : fork.found ≠ fork.other)
    (hOverlooks : Overlooks fork.front fork.other.kind) :
    fork.Alone part step place := by
  unfold Alone
  cases hEnd : step place with
  | ok result after =>
      have hRest := hStep.of_ok hEnd
      rw [hBeyond] at hRest
      exact (past_or_eq hRest).imp_right fun hSame =>
        .inl ⟨hSame, hDiffer, .inl hOverlooks⟩
  | error error after =>
      refine (left_suffix hStep hEnd).imp_right fun hLeft => ?_
      rw [hBeyond] at hLeft
      exact (past_or_eq hLeft.1).imp_right fun hSame =>
        ⟨hDiffer, .inr ⟨hSame, .inl hOverlooks⟩⟩

namespace Relates

variable {first second third : Parse α}
variable {another : Cursor}

/-
  Where the second run may do something else at the fork, the
  first goes on alone: it passes the fork, or it ends there and
  still says what was looked for.
-/
theorem alone_of_missed
    [hForward : Forward first]
    (hClosed : place.Closed)
    (hFork : place.rest = fork.first)
    (hMissed : fork.Missed part place.sought)
    (hRelates : fork.Relates part first second place other) :
    fork.Alone part first place := by
  have hBeyond := hForward.beyond place hClosed
  unfold Relates at hRelates
  unfold Alone
  cases hStep : first place with
  | ok result after =>
      rw [hStep] at hRelates
      rcases hRelates with hPast | hStrays | hWhole | ⟨hKeeps, -⟩
      · exact .inl hPast
      · exact .inr (.inl hStrays)
      · exact .inr (.inr hWhole)
      have hRest := hBeyond.of_ok hStep
      rw [hFork] at hRest
      refine (past_or_eq hRest).imp_right fun hSame =>
        .inl ⟨hSame, hMissed.1, hMissed.2.imp_right ?_⟩
      exact fun hSought =>
        ⟨hSought.1,
          hKeeps hSought.1 (hSame.trans hFork.symm) hSought.2⟩
  | error error after =>
      rw [hStep] at hRelates
      rcases hRelates with hDepth | hPast | hExcuses | ⟨hKeeps, -⟩
      · exact .inl hDepth
      · exact .inr (.inl hPast)
      · exact .inr (.inr hExcuses)
      by_cases hCause : error.IsUnexpected
      · refine (left_suffix hBeyond hStep).imp_right fun hLeft => ?_
        rw [hFork] at hLeft
        refine (past_or_eq hLeft.1).imp_right fun hSame =>
          ⟨hMissed.1, .inr ⟨hSame, hMissed.2.imp_right ?_⟩⟩
        exact fun hSought =>
          hKeeps hCause hSought.1 (hSame.trans hFork.symm) hSought.2
      · exact .inr (.inr ⟨hMissed.1, .inl hCause⟩)

/-
  Where the second run would pass the fork but the first does
  not, both cannot do the same.
-/
theorem alone_of_passes
    (hTwin : fork.Twin place other)
    (hFork : place.rest = fork.first)
    (hKind : other.current.kind ≠ .endOfInput)
    (hPasses : second.Beyond other other.next)
    (hRelates : fork.Relates part first second place other) :
    fork.Alone part first place := by
  have hShort {tokens before : List Token}
      (hTokens : tokens <:+ other.next.rest)
      (hBefore : tokens = before ++ fork.second) : False := by
    have hLess := hTwin.closedOther.fuel_next_lt hKind
    have hLength := hTokens.length_le
    rw [← Cursor.length_rest, ← Cursor.length_rest,
      hTwin.rest_eq hFork] at hLess
    rw [hBefore, List.length_append] at hLength
    omega
  unfold Relates at hRelates
  unfold Alone
  cases hStep : first place with
  | ok result after =>
      rw [hStep] at hRelates
      rcases hRelates with
        hPast | hStrays | hWhole | ⟨-, stop, hOk, hAfter⟩
      · exact .inl hPast
      · exact .inr (.inl hStrays)
      · exact .inr (.inr hWhole)
      · rcases hAfter.level with ⟨before, -, hBefore⟩
        exact (hShort (hPasses.of_ok hOk) hBefore).elim
  | error error after =>
      rw [hStep] at hRelates
      rcases hRelates with
        hDepth | hPast | hExcuses | ⟨-, same, stop, hError, hEchoes⟩
      · exact .inl hDepth
      · exact .inr (.inl hPast)
      · exact .inr (.inr hExcuses)
      · rcases hEchoes.level with ⟨before, -, hBefore⟩
        rcases left_suffix hPasses hError with hDepth | ⟨hLeft, -⟩
        · rw [SyntaxError.isDepthLimit, hEchoes.cause] at hDepth
          exact .inl hDepth
        · exact (hShort hLeft hBefore).elim

/-
  Steps that do the same from an earlier place, if what was
  looked for there is still looked for.
-/
theorem of_later
    {firstSame secondSame : Parse α}
    {start startOther : Cursor}
    [hForward : Forward first]
    (hFirst : firstSame start = first place)
    (hSecond : secondSame startOther = second other)
    (hClosed : place.Closed)
    (hRest : place.rest <:+ start.rest)
    (hKeeps : Keeps part start place.rest place.sought)
    (hRelates : fork.Relates part first second place other) :
    fork.Relates part firstSame secondSame start startOther := by
  have hBeyond := hForward.beyond place hClosed
  have hKept {tokens : List Token} {sought : List TokenKind}
      (hTokens : tokens <:+ place.rest)
      (hLater : Keeps part place tokens sought) :
      Keeps part start tokens sought := by
    rintro hPart rfl
    have hSame := hRest.eq_of_length_le hTokens.length_le
    exact
      List.Subset.trans (hKeeps hPart hSame)
        (hLater hPart hSame.symm)
  unfold Relates at hRelates ⊢
  rw [hFirst, hSecond]
  cases hStep : first place with
  | ok result after =>
      rw [hStep] at hRelates
      exact hRelates.imp_right (Or.imp_right (Or.imp_right
        (And.imp_left (hKept (hBeyond.of_ok hStep)))))
  | error error after =>
      rw [hStep] at hRelates
      rcases left_suffix hBeyond hStep with hDepth | ⟨hLeft, -⟩
      · exact .inl hDepth
      · exact hRelates.imp_right (Or.imp_right (Or.imp_right
          (And.imp_left fun hLater hCause =>
            hKept hLeft (hLater hCause))))

theorem of_eq
    {firstSame secondSame : Parse α}
    (hFirst : firstSame place = first place)
    (hSecond : secondSame other = second other)
    (hRelates : fork.Relates part first second place other) :
    fork.Relates part firstSame secondSame place other := by
  unfold Relates at hRelates ⊢
  rwa [hFirst, hSecond]

/- A token is taken before a step that is part of the same or a constant. -/
theorem taking
    {start : Part}
    {firstSame secondSame : Parse α}
    [hForward : Forward first]
    (hFirst : firstSame place = first place.next)
    (hSecond : secondSame other = second other.next)
    (hPart : start = part ∨ start = .constant)
    (hClosed : place.Closed)
    (hKind : place.current.kind ≠ .endOfInput)
    (hRelates :
      fork.Relates start first second place.next other.next) :
    fork.Relates part firstSame secondSame place other := by
  have hBeyond := hForward.beyond place.next hClosed.next
  unfold Relates at hRelates ⊢
  rw [hFirst, hSecond]
  cases hStep : first place.next with
  | ok result after =>
      rw [hStep] at hRelates
      rcases hRelates with
        hPast | ⟨hFork, hDiffer, hMissed⟩ | ⟨rfl, hFork⟩ | ⟨-, hSame⟩
      · exact .inl hPast
      · refine .inr (.inl ⟨hFork, hDiffer, hMissed.imp_right ?_⟩)
        rintro ⟨hStart, hSought⟩
        exact ⟨hPart.resolve_right hStart ▸ hStart, hSought⟩
      · exact .inr (.inr (.inl
          ⟨(hPart.resolve_right (by simp)).symm, hFork⟩))
      · exact .inr (.inr (.inr
          ⟨keeps_of_next hClosed hKind (hBeyond.of_ok hStep), hSame⟩))
  | error error after =>
      rw [hStep] at hRelates
      rcases left_suffix hBeyond hStep with hDepth | ⟨hLeft, -⟩
      · exact .inl hDepth
      · exact hRelates.imp_right (Or.imp_right (Or.imp_right
          (And.imp_left fun _ _ =>
            keeps_of_next hClosed hKind hLeft)))

------------------------------------------------------------
-- Ways To End
------------------------------------------------------------

theorem pure
    (hTwin : fork.Twin place other)
    (result : α) :
    fork.Relates part (Pure.pure result) (Pure.pure result) place
      other :=
  .inr (.inr (.inr
    ⟨fun _ _ => List.Subset.refl _, other, rfl, hTwin⟩))

/- A production ends by marking what it gives with a span. -/
theorem spanned
    (hTwin : fork.Twin place other)
    (start : Span)
    (mark : Span → α) :
    fork.Relates part
      (spanFrom start >>= fun span => Pure.pure (mark span))
      (spanFrom start >>= fun span => Pure.pure (mark span))
      place other := by
  refine .inr (.inr (.inr
    ⟨fun _ _ => List.Subset.refl _, other, ?_, hTwin⟩))
  change
    EStateM.Result.ok
      (mark (start.through other.previous.span)) other = _
  rw [hTwin.previous]

/- What one token is about says the same in both runs. -/
theorem echoes_current
    {cause : SyntaxCause}
    {kinds : List TokenKind}
    (hTwin : fork.Twin place other)
    (hCause : cause ≠ .notJson) :
    fork.Echoes ⟨cause, place.current, kinds⟩ place
      ⟨cause, other.current, kinds⟩ other where
  cause := rfl
  expected := rfl
  level := by
    simpa only [Cursor.left, if_neg hCause] using hTwin.level
  found := by
    rw [Cursor.left, if_neg hCause]
    rfl
  foundOther := by
    rw [Cursor.left, if_neg hCause]
    rfl

theorem unexpected
    (hTwin : fork.Twin place other) :
    fork.Relates part (Parse.unexpected : Parse α) Parse.unexpected
      place other := by
  have hCause : SyntaxCause.unexpected ≠ .notJson := by simp
  refine .inr (.inr (.inr
    ⟨fun _ _ _ kind hKind => Cursor.mem_expected.mpr hKind,
      ⟨.unexpected, other.current, place.expected⟩, other, ?_,
      echoes_current hTwin hCause⟩))
  rw [Cursor.expected, ← hTwin.sought]
  rfl

theorem tooDeep
    {cause : SyntaxCause}
    (hCause :
      SyntaxError.isDepthLimit ⟨cause, place.current, []⟩ = true) :
    fork.Relates part (Parse.tooDeep cause : Parse α)
      (Parse.tooDeep cause) place other :=
  .inl hCause

/- Kinds that are expected in a constant are not those looked for. -/
theorem unexpectedInLiteral
    (hTwin : fork.Twin place other)
    (kinds : List TokenKind) :
    fork.Relates .constant (Embedded.unexpected kinds : Parse α)
      (Embedded.unexpected kinds) place other :=
  .inr (.inr (.inr
    ⟨fun _ hPart => absurd rfl hPart, _, other, rfl,
      echoes_current hTwin (by simp)⟩))

/- At the fork the second run may find one of the kinds. -/
theorem alone_of_expected
    {kinds : List TokenKind}
    (hFork : place.rest = fork.first)
    (hDiffer : fork.found ≠ fork.other)
    (hKind : fork.other.kind ∈ kinds) :
    fork.Alone .constant (Embedded.unexpected kinds : Parse α)
      place :=
  .inr (.inr ⟨hDiffer, .inr ⟨hFork, .inr hKind⟩⟩)

/- What is done with the places themselves. -/
theorem get
    {next follow : Cursor → Parse α}
    (hNext :
      fork.Relates part (next place) (follow other) place other) :
    fork.Relates part (MonadState.get >>= next)
      (MonadState.get >>= follow) place other :=
  of_eq (get_bind_apply place next) (get_bind_apply other follow)
    hNext

------------------------------------------------------------
-- One Step After Another
------------------------------------------------------------

theorem bind
    {start : Part}
    {first second : Parse β}
    {next follow : β → Parse α}
    [hForward : Forward first]
    [hNextForward : ∀ result, Forward (next result)]
    [hWithin : start.Within part]
    (hTwin : fork.Twin place other)
    (hFirst : fork.Relates start first second place other)
    (hNext :
      ∀ result after stop,
        first place = .ok result after →
        fork.Twin after stop →
        fork.Relates part (next result) (follow result) after
          stop) :
    fork.Relates part (first >>= next) (second >>= follow) place
      other := by
  have hClosed := hTwin.closed
  have hBeyond := hForward.beyond place hClosed
  unfold Relates at hFirst
  cases hStep : first place with
  | error error after =>
      rw [hStep] at hFirst
      rw [Relates, bind_of_error hStep]
      refine hFirst.imp_right (Or.imp_right (Or.imp_right ?_))
      rintro ⟨hKeeps, same, stop, hSame, hEchoes⟩
      exact
        ⟨fun hCause hPart =>
          hKeeps hCause (mt hWithin.alike.mp hPart),
          same, stop, bind_of_error hSame follow, hEchoes⟩
  | ok result after =>
      rw [hStep] at hFirst
      have hWhole := bind_of_ok hStep next
      have hRest := hBeyond.of_ok hStep
      have hAfter := hClosed.of_suffix hRest
      have hGoesOn :=
        (hNextForward result).beyond after hAfter
      rcases hFirst with
        hPast | ⟨hFork, hMissed⟩ | ⟨hEnd, -⟩ |
          ⟨hKeeps, stop, hSame, hStop⟩
      · exact (alone_of_past hGoesOn hPast).relates hWhole
      · -- The first run goes on beside one that waits at the fork.
        have hIdle := hTwin.idle hAfter hFork hMissed
        have hStays : fork.Missed part after.sought :=
          hMissed.mono fun _ => List.Subset.refl _
        exact
          ((hNext result after _ hStep hIdle).alone_of_missed hAfter
            hFork hStays).relates hWhole
      · exact absurd hEnd hWithin.inside
      · exact of_later hWhole (bind_of_ok hSame follow) hAfter hRest
          (fun hPart =>
            hKeeps fun hStart => hPart (hWithin.alike.mp hStart))
          (hNext result after stop hStep hStop)

------------------------------------------------------------
-- Decisions
------------------------------------------------------------

/- Both runs take the same token, or the first one passes the fork. -/
theorem advance
    {next follow : Token → Parse α}
    [∀ token, Forward (next token)]
    (hTwin : fork.Twin place other)
    (hKind : place.current.kind ≠ .endOfInput)
    (hNext :
      fork.Twin place.next other.next →
        fork.Relates part (next place.current)
          (follow place.current) place.next other.next) :
    fork.Relates part (Parse.advance >>= next)
      (Parse.advance >>= follow) place other := by
  by_cases hFork : place.rest = fork.first
  · exact
      (alone_of_past (beyond_advance hTwin.closed)
        (past_next hFork hTwin.closed hKind)).relates rfl
  · refine taking (advance_bind_apply place next) ?_ (.inl rfl)
      hTwin.closed hKind (hNext (hTwin.next hFork hKind))
    rw [advance_bind_apply, hTwin.current_eq hFork]

/-
  Both runs decide by the token at their place whether to take
  it. At the fork they may decide in different ways.
-/
theorem decide
    (takes : TokenKind → Prop)
    (hTwin : fork.Twin place other)
    (hEnd : ¬ takes .endOfInput)
    (hPasses :
      takes place.current.kind → first.Beyond place place.next)
    (hTaken :
      takes place.current.kind → place.rest ≠ fork.first →
        fork.Relates part first second place other)
    (hMissed :
      ¬ takes place.current.kind → place.rest = fork.first →
        fork.found ≠ fork.other → takes fork.other.kind →
          fork.Alone part first place)
    (hOther :
      ¬ takes place.current.kind → ¬ takes other.current.kind →
        fork.Relates part first second place other) :
    fork.Relates part first second place other := by
  by_cases hPlace : takes place.current.kind
  · have hKind : place.current.kind ≠ .endOfInput :=
      fun hSame => hEnd (hSame ▸ hPlace)
    by_cases hFork : place.rest = fork.first
    · exact
        (alone_of_past (hPasses hPlace)
          (past_next hFork hTwin.closed hKind)).relates rfl
    · exact hTaken hPlace hFork
  · by_cases hOtherPlace : takes other.current.kind
    · by_cases hFork : place.rest = fork.first
      · rcases hTwin.current_fork hFork with ⟨hFound, hFoundOther⟩
        rw [hFoundOther] at hOtherPlace
        refine (hMissed hPlace hFork (fun hSame => ?_)
          hOtherPlace).relates rfl
        rw [hFound, hSame] at hPlace
        exact hPlace hOtherPlace
      · rw [hTwin.current_eq hFork] at hOtherPlace
        exact absurd hOtherPlace hPlace
    · exact hOther hPlace hOtherPlace

theorem choice
    {takes : TokenKind → Bool}
    {taken takenOther : Token → Parse α}
    [∀ token, Forward (taken token)]
    [Forward first]
    (hTwin : fork.Twin place other)
    (hEnd : takes .endOfInput = false)
    (hTaken :
      takes place.current.kind = true →
        fork.Twin place.next other.next →
          fork.Relates part (taken place.current)
            (takenOther place.current) place.next other.next)
    (hMissed :
      place.rest = fork.first → fork.found ≠ fork.other →
        takes fork.other.kind = true →
          fork.Alone part first place)
    (hOther : fork.Relates part first second place other) :
    fork.Relates part (Parse.choice takes taken first)
      (Parse.choice takes takenOther second) place other := by
  refine decide (fun kind => takes kind = true) hTwin
    (by simp [hEnd]) (beyond_choice hTwin.closed)
    (fun hTakes hBefore => ?_)
    (fun hPlace hFork hDiffer hTakes => ?_)
    fun hPlace hOtherPlace => ?_
  · have hSame := hTwin.current_eq hBefore
    have hKind : place.current.kind ≠ .endOfInput := by
      intro hSame
      rw [hSame, hEnd] at hTakes
      cases hTakes
    refine taking (choice_of_takes hTakes) ?_ (.inl rfl)
      hTwin.closed hKind (hTaken hTakes (hTwin.next hBefore hKind))
    rw [choice_of_takes (hSame.symm ▸ hTakes), hSame]
  · rw [Bool.not_eq_true] at hPlace
    have hAlone := hMissed hFork hDiffer hTakes
    unfold Alone at hAlone ⊢
    rwa [choice_of_not_takes hPlace]
  · rw [Bool.not_eq_true] at hPlace hOtherPlace
    exact of_eq (choice_of_not_takes hPlace)
      (choice_of_not_takes hOtherPlace) hOther

/- In a constant one of some kinds is taken, or both runs fail alike. -/
theorem oneOf
    {kinds : List TokenKind}
    {taken takenOther : Token → Parse α}
    [∀ token, Forward (taken token)]
    (hTwin : fork.Twin place other)
    (hEnd : .endOfInput ∉ kinds)
    (hTaken :
      place.current.kind ∈ kinds →
        fork.Twin place.next other.next →
          fork.Relates .constant (taken place.current)
            (takenOther place.current) place.next other.next) :
    fork.Relates .constant (Embedded.oneOf kinds taken)
      (Embedded.oneOf kinds takenOther) place other :=
  choice hTwin (by simpa using hEnd)
    (fun hTakes => hTaken (by simpa using hTakes))
    (fun hFork hDiffer hTakes =>
      alone_of_expected hFork hDiffer (by simpa using hTakes))
    (unexpectedInLiteral hTwin kinds)

/- What was looked for is known at a later place. -/
theorem seeking
    {kinds : List TokenKind}
    {firstSame secondSame : Parse α}
    [Forward first]
    (hTwin : fork.Twin place other)
    (hFirst : firstSame place = first (place.seeking kinds))
    (hSecond : secondSame other = second (other.seeking kinds))
    (hRelates :
      fork.Relates part first second (place.seeking kinds)
        (other.seeking kinds)) :
    fork.Relates part firstSame secondSame place other :=
  of_later hFirst hSecond (hTwin.seeking kinds).closed
    (List.suffix_refl _)
    (fun _ _ => List.subset_append_left _ _) hRelates

section Looking

variable [hInner : Part.Within .inner part]

include hInner

/- The second run may find at the fork what the first looks for there. -/
theorem alone_of_seeking
    {kinds : List TokenKind}
    [Forward first]
    (hTwin : fork.Twin place other)
    (hFork : place.rest = fork.first)
    (hDiffer : fork.found ≠ fork.other)
    (hKind : fork.other.kind ∈ kinds)
    (hRelates :
      fork.Relates part first second (place.seeking kinds)
        (other.seeking kinds)) :
    fork.Alone part first (place.seeking kinds) := by
  have hPart : part ≠ .constant :=
    mt hInner.alike.mpr (by simp)
  have hSought : fork.other.kind ∈ (place.seeking kinds).sought :=
    List.mem_append_right _ hKind
  exact hRelates.alone_of_missed (hTwin.seeking kinds).closed hFork
    ⟨hDiffer, .inr ⟨hPart, hSought⟩⟩

theorem test
    {kind : TokenKind}
    {taken takenOther : Token → Parse α}
    [∀ token, Forward (taken token)]
    [Forward first]
    (hTwin : fork.Twin place other)
    (hEnd : kind ≠ .endOfInput)
    (hTaken :
      place.current.kind = kind →
        fork.Twin place.next other.next →
          fork.Relates part (taken place.current)
            (takenOther place.current) place.next other.next)
    (hOther :
      fork.Twin (place.seeking [kind]) (other.seeking [kind]) →
        fork.Relates part first second (place.seeking [kind])
          (other.seeking [kind])) :
    fork.Relates part (Parse.test kind taken first)
      (Parse.test kind takenOther second) place other := by
  have hSeeking := hTwin.seeking [kind]
  have hRelates := hOther hSeeking
  refine seeking hTwin (seek_bind_apply place _ _)
    (seek_bind_apply other _ _) (choice hSeeking
      (decide_eq_false hEnd.symm) (fun hTakes hNext => ?_)
      (fun hFork hDiffer hTakes => ?_) hRelates)
  · rw [Cursor.next_seeking, Cursor.next_seeking] at hNext ⊢
    exact hTaken (of_decide_eq_true hTakes) hNext
  · exact alone_of_seeking hTwin hFork hDiffer
      (List.mem_singleton.mpr (of_decide_eq_true hTakes)) hRelates

/- An expected token is taken, or both runs fail alike. -/
theorem expected
    {kind : TokenKind}
    {taken takenOther : Token → Parse α}
    [∀ token, Forward (taken token)]
    (hTwin : fork.Twin place other)
    (hEnd : kind ≠ .endOfInput)
    (hTaken :
      place.current.kind = kind →
        fork.Twin place.next other.next →
          fork.Relates part (taken place.current)
            (takenOther place.current) place.next other.next) :
    fork.Relates part (Parse.test kind taken Parse.unexpected)
      (Parse.test kind takenOther Parse.unexpected) place other :=
  test hTwin hEnd hTaken unexpected

/- A token of one of two kinds is taken, or both runs fail alike. -/
theorem either
    {kind another : TokenKind}
    [Forward first]
    (hTwin : fork.Twin place other)
    (hEnd : kind ≠ .endOfInput)
    (hEndAnother : another ≠ .endOfInput)
    (hNext :
      place.next.fuel < place.fuel →
        fork.Twin place.next other.next →
          fork.Relates part first second place.next other.next) :
    fork.Relates part (Parse.either kind another first)
      (Parse.either kind another second) place other := by
  refine test hTwin hEnd
    (fun hKind =>
      hNext (hTwin.closed.fuel_next_lt (hKind ▸ hEnd)))
    fun hSeeking => expected hSeeking hEndAnother fun hKind => ?_
  rw [Cursor.next_seeking, Cursor.next_seeking]
  exact hNext
    (hTwin.closed.fuel_next_lt
      (hKind ▸ hEndAnother : place.current.kind ≠ _))

/- Both runs go on alike whether or not there is a token to be taken. -/
theorem optional
    {kind : TokenKind}
    [Forward first]
    (hTwin : fork.Twin place other)
    (hEnd : kind ≠ .endOfInput)
    (hTaken :
      place.current.kind = kind →
        fork.Twin place.next other.next →
          fork.Relates part first second place.next other.next)
    (hOther :
      fork.Twin (place.seeking [kind]) (other.seeking [kind]) →
        fork.Relates part first second (place.seeking [kind])
          (other.seeking [kind])) :
    fork.Relates part (Parse.optional kind first)
      (Parse.optional kind second) place other :=
  test hTwin hEnd hTaken hOther

end Looking

/-
  Both runs decide by the token at their place and the one
  after it, whose kind only matters after an identifier. Where
  the one after it is the token at the fork, the decision says
  nothing of what it looked for.
-/
theorem lookahead
    {ahead : Token → TokenKind → Bool}
    {taken takenOther : Token → Parse α}
    (hTwin : fork.Twin place other)
    (hAhead :
      ∀ token following, ahead token following = true →
        token.kind = .identifier ∧ following ≠ .endOfInput)
    (hPasses :
      ∀ cursor : Cursor, cursor.Closed →
        ahead cursor.current cursor.following.kind = true →
          (taken cursor.current).Beyond cursor cursor.next.next)
    (hBeyond :
      ∀ cursor : Cursor, cursor.Closed →
        cursor.current.kind = .identifier →
          first.Beyond cursor cursor.next)
    (hBeyondOther :
      ∀ cursor : Cursor, cursor.Closed →
        cursor.current.kind = .identifier →
          second.Beyond cursor cursor.next)
    (hOverlooks :
      place.next.rest = fork.first →
        ahead place.current fork.other.kind = true →
          Overlooks fork.front fork.other.kind)
    (hTaken :
      place.rest ≠ fork.first →
        ahead place.current place.following.kind = true →
          fork.Relates part (taken place.current)
            (takenOther place.current) place other)
    (hOther : fork.Relates part first second place other) :
    fork.Relates part (Parse.lookahead ahead taken first)
      (Parse.lookahead ahead takenOther second) place other := by
  have hIdentifier : TokenKind.identifier ≠ .endOfInput := by simp
  cases hHere : ahead place.current place.following.kind with
  | false =>
      have hFirst :
          Parse.lookahead ahead taken first place = first place :=
        lookahead_of_not_ahead hHere
      cases hThere : ahead other.current other.following.kind with
      | false =>
          exact of_eq hFirst (lookahead_of_not_ahead hThere) hOther
      | true =>
          have hName := (hAhead _ _ hThere).1
          by_cases hFork : place.rest = fork.first
          · by_cases hKind : place.current.kind = .identifier
            · exact
                (alone_of_past (hBeyond place hTwin.closed hKind)
                  (past_next hFork hTwin.closed
                    (hKind ▸ hIdentifier))).relates hFirst
            · exact
                (hOther.alone_of_passes hTwin hFork
                  (hName ▸ hIdentifier)
                  (hBeyondOther other hTwin.closedOther hName)).relates
                    hFirst
          · have hSame := hTwin.current_eq hFork
            have hKinds :
                place.following.kind ≠ other.following.kind := by
              intro hKinds
              rw [hSame, ← hKinds, hHere] at hThere
              cases hThere
            rcases hTwin.next_fork hFork (hKinds ∘ congrArg _) with
              ⟨hNext, hFound, hFoundOther⟩
            rw [hFound, hFoundOther] at hKinds
            rw [hSame, hFoundOther] at hThere
            exact
              (alone_of_overlooks
                (hBeyond place hTwin.closed (hSame ▸ hName)) hNext
                (hKinds ∘ congrArg _)
                (hOverlooks hNext hThere)).relates hFirst
  | true =>
      have hFirst :
          Parse.lookahead ahead taken first place =
            taken place.current place :=
        lookahead_of_ahead hHere
      rcases hAhead _ _ hHere with ⟨hName, hFollowing⟩
      have hKind : place.current.kind ≠ .endOfInput :=
        hName ▸ hIdentifier
      have hPasses := hPasses place hTwin.closed hHere
      by_cases hFork : place.rest = fork.first
      · exact
          (alone_of_past (hPasses.mono place.next.rest_next_suffix)
            (past_next hFork hTwin.closed hKind)).relates hFirst
      · have hSame := hTwin.current_eq hFork
        by_cases hKinds :
          place.following.kind = other.following.kind
        · have hThere := hHere
          rw [← hSame, hKinds] at hThere
          refine of_eq hFirst ?_ (hTaken hFork hHere)
          rw [lookahead_of_ahead hThere, hSame]
        · have hNext :=
            (hTwin.next_fork hFork (hKinds ∘ congrArg _)).1
          have hNextKind : place.next.current.kind ≠ .endOfInput := by
            rwa [hTwin.closed.current_next hKind]
          exact
            (alone_of_past hPasses
              (past_next hNext hTwin.closed.next hNextKind)).relates
                hFirst

end Relates

end Fork

end ExperimentScript
