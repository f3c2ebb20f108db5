import ExperimentScript.Proofs.Parser.Forward

/-
  Two runs of reading, step by step.

  The runs read the same tokens up to a fork and other tokens
  from there on. As long as the first run has not passed the
  fork, the second does the same at the corresponding place,
  or it has been diverted: it has taken the token at the fork
  where the first run did not, or stopped for a reason that is
  given. Without a fork, the two runs read the same tokens and
  may only differ in what they make of them.

  `Pairing.Relates` states this for a step of each run, and
  every way in which productions put steps together has a rule
  for it. The limit of nesting is set aside.

  Key definitions include:
    * `ExperimentScript.Pairing`
    * `ExperimentScript.Pairing.Twin`
    * `ExperimentScript.Pairing.Relates`

  Main declarations:
    * `ExperimentScript.Pairing.Relates.bind`
    * `ExperimentScript.Pairing.Relates.decide`
    * `ExperimentScript.Pairing.Relates.lookahead`
-/

namespace ExperimentScript

------------------------------------------------------------
-- Expected Kinds
------------------------------------------------------------

theorem TokenKind.mem_all (kind : TokenKind) : kind ∈ all := by
  cases kind <;> decide

namespace Cursor

variable {cursor : Cursor}

/- What is expected at a place is what was looked for there. -/
theorem mem_expected
    {kind : TokenKind} :
    kind ∈ cursor.expected ↔ kind ∈ cursor.sought := by
  simp [expected, kind.mem_all]

theorem expected_ne_nil
    (hSought : cursor.sought ≠ []) :
    cursor.expected ≠ [] := by
  rcases List.exists_mem_of_ne_nil _ hSought with ⟨kind, hKind⟩
  exact List.ne_nil_of_mem (mem_expected.mpr hKind)

theorem sought_seeking_ne_nil
    {kinds : List TokenKind}
    (hKinds : kinds ≠ []) :
    (cursor.seeking kinds).sought ≠ [] :=
  List.append_ne_nil_of_right_ne_nil _ hKinds

end Cursor

------------------------------------------------------------
-- Pairs Of Runs
------------------------------------------------------------

/-
  All tokens of the first of two runs, the tokens that both
  read from their fork on, whether a kind that the second run
  finds there may have been looked for before, the errors of
  the first run about which nothing is said, and when the
  second run counts as diverted: for a place of the first run,
  the error of the second, if there is one, and the place
  where the second has stopped.
-/
structure Pairing where
  source : List Token
  first : List Token
  second : List Token
  barred : Prop
  ignored : SyntaxError → Prop
  diverted : Cursor → Option SyntaxError → Cursor → Prop
  empty_iff : first = [] ↔ second = []
  /- Without a fork only a run that fails is diverted. -/
  whole
    {place stop : Cursor}
    (hNone : first = []) :
    ¬ diverted place none stop
  /- A diverted run stays so while the other one goes on. -/
  waits
    {place after stop : Cursor}
    {error : Option SyntaxError}
    (hDiverted : diverted place error stop)
    (hRest : after.rest <:+ place.rest) :
    diverted after error stop
  /- A diverted run stays so while it goes on itself. -/
  goesOn
    {place start stop : Cursor}
    {error : Option SyntaxError}
    (hDiverted : diverted place none start)
    (hStop : start.Reaches error stop) :
    diverted place error stop
  /- Taking a token at the fork that the other run does not find there diverts. -/
  takes
    {place other after stop : Cursor}
    {error : Option SyntaxError}
    (hFirst : place.rest = first)
    (hSecond : other.rest = second)
    (hKind : place.current.kind ≠ other.current.kind)
    (hEnd : other.current.kind ≠ .endOfInput)
    (hStop : other.next.Reaches error stop) :
    diverted after error stop

/- An operator of a kind binds too loosely to be taken where a power is asked for. -/
def TokenKind.Loose (power : Nat) (kind : TokenKind) : Prop :=
  ∃ found, kind.level? = some found ∧ 2 * found - 1 < power

/- Nodes that can both be called, or neither, are stopped alike. -/
theorem Production.Stops.congr
    {power : Nat}
    {node other : Node Span}
    {kind : TokenKind}
    (hStops : Stops power node kind)
    (hCallee : callee? node = callee? other) :
    Stops power other kind :=
  ⟨hStops.noIndex, fun hKind => hCallee ▸ hStops.noCall hKind,
    hStops.loose⟩

/- Of what could continue a node, only loose operators do not. -/
theorem Production.Stops.loose_of_mem
    {power : Nat}
    {node : Node Span}
    {kind : TokenKind}
    (hStops : Stops power node kind)
    (hBound : power ≤ postfixPower)
    (hKind : kind ∈ continuations node) :
    kind.Loose power := by
  simp only [continuations, List.mem_append, List.mem_singleton]
    at hKind
  rcases hKind with (hBetween | hIndex) | hCall
  · rw [TokenKind.betweenOperands, List.mem_filter,
      TokenKind.power?_eq] at hBetween
    cases hLevel : kind.level? with
    | none => simp [hLevel] at hBetween
    | some found => exact ⟨found, hLevel, hStops.loose found hLevel⟩
  · exact absurd (hStops.noIndex hIndex) (Nat.not_lt.mpr hBound)
  · split at hCall
    · rename_i hCallee
      have hTight := hStops.noCall (List.mem_singleton.mp hCall) hCallee
      exact absurd hTight (Nat.not_lt.mpr hBound)
    · cases hCall

theorem TokenKind.not_loose_zero
    {kind : TokenKind} :
    ¬ kind.Loose 0 :=
  fun ⟨_, _, hPower⟩ => Nat.not_lt_zero _ hPower

/-
  What a step reads: part of a script, up to an operator that
  binds less tightly than asked, or the whole script.
-/
inductive Scope where
  | inside (power : Nat)
  | whole

/- The power that is asked for. -/
def Scope.power : Scope → Nat
  | .inside power => power
  | .whole => 0

namespace Pairing

variable (pairing : Pairing)

/- The first run has passed the fork. -/
def Past (place : Cursor) : Prop :=
  place.fuel < pairing.first.length

/- A run ends diverted. -/
def Diverts
    {α : Type}
    (place : Cursor)
    (ending : EStateM.Result SyntaxError Cursor α) : Prop :=
  match ending with
  | .ok _ stop => pairing.diverted place none stop
  | .error error stop => pairing.diverted place (some error) stop

/- Places before or at the fork with as many tokens to go to it. -/
def Level (place other : Cursor) : Prop :=
  ∃ before,
    place.rest = before ++ pairing.first ∧
      other.rest = before ++ pairing.second

/-
  Corresponding places of two runs. What the second run finds
  at a barred fork has not been looked for, unless as an
  operator that is too loose to be taken yet.
-/
structure Twin
    (power : Nat)
    (place other : Cursor) : Prop where
  previous : place.previous = other.previous
  sought : place.sought = other.sought
  within : place.rest <:+ pairing.source
  level : pairing.Level place other
  free :
    place.rest = pairing.first →
      pairing.barred →
        other.current.kind ∈ other.sought →
          other.current.kind.Loose power
  closed : place.Closed
  closedOther : other.Closed

/-
  Errors of two runs at corresponding places: they tell the
  same, except that each names the token at its own fork. What
  is unexpected comes with what was expected instead, and that
  is not what the second run finds at a barred fork.
-/
structure Echoes
    (error : SyntaxError)
    (place : Cursor)
    (otherError : SyntaxError)
    (other : Cursor) : Prop where
  cause : otherError.cause = error.cause
  expected : otherError.expected = error.expected
  level : pairing.Level place other
  found :
    otherError.found = error.found ∨
      (place.rest = pairing.first ∧
        error.found = place.current ∧
        otherError.found = other.current)
  unexpected :
    error.cause = .unexpected ∨
      error.cause = .unexpectedInLiteral
  informed : error.expected ≠ []
  free :
    place.rest = pairing.first →
      pairing.barred →
        other.current.kind ∉ error.expected

/- The second run finds the end of its tokens at the fork and succeeds. -/
def Finishes
    {α : Type}
    (ending : EStateM.Result SyntaxError Cursor α) : Prop :=
  ∃ result stop,
    ending = .ok result stop ∧
      stop.rest = pairing.second ∧
      stop.current.kind = .endOfInput

/-
  The first run hits the limit of nesting, or fails in a way
  that is ignored. Without a fork the second one fails as well.
-/
def Limits
    {α : Type}
    (error : SyntaxError)
    (ending : EStateM.Result SyntaxError Cursor α) : Prop :=
  (error.isDepthLimit = true ∨ pairing.ignored error) ∧
    (pairing.first = [] →
      ∃ found stop, ending = .error found stop)

/-
  A step of each of two runs, from given places: nothing is
  said where the first passes the fork. Else the second is
  diverted, or both do the same. For whole scripts nothing is
  said either where the first run succeeds at the fork, and
  the second run may succeed where the first one does not.
-/
def Relates
    {α β : Type}
    (scope : Scope)
    (related : α → β → Prop)
    (first : Parse α)
    (second : Parse β)
    (cursor other : Cursor) : Prop :=
  match first cursor with
  | .ok result after =>
    pairing.Past after ∨ pairing.Diverts after (second other) ∨
      (scope = .whole ∧ after.rest = pairing.first) ∨
      ∃ same stop,
        second other = .ok same stop ∧ related result same ∧
          pairing.Twin scope.power after stop
  | .error error after =>
    pairing.Limits error (second other) ∨ pairing.Past after ∨
      pairing.Diverts after (second other) ∨
      (scope = .whole ∧ pairing.Finishes (second other)) ∨
      ∃ same stop,
        second other = .error same stop ∧
          pairing.Echoes error after same stop

variable {pairing}

------------------------------------------------------------
-- Places
------------------------------------------------------------

theorem Past.of_suffix
    {place after : Cursor}
    (hPast : pairing.Past place)
    (hRest : after.rest <:+ place.rest) :
    pairing.Past after :=
  Nat.lt_of_le_of_lt (Cursor.fuel_le_of_suffix hRest) hPast

/- What is among the tokens from the fork on is at the fork or past it. -/
theorem past_or_eq
    {after : Cursor}
    (hRest : after.rest <:+ pairing.first) :
    pairing.Past after ∨ after.rest = pairing.first := by
  rcases Nat.lt_or_ge after.fuel pairing.first.length with
    hPast | hLength
  · exact .inl hPast
  · exact .inr (hRest.eq_of_length_le hLength)

theorem not_past
    {place : Cursor}
    (hNone : pairing.first = []) :
    ¬ pairing.Past place := by
  rw [Past, hNone]
  exact Nat.not_lt_zero _

/- What is beyond the token at the fork is past the fork. -/
theorem past_of_next
    {place after : Cursor}
    (hFork : place.rest = pairing.first)
    (hClosed : place.Closed)
    (hKind : place.current.kind ≠ .endOfInput)
    (hRest : after.rest <:+ place.next.rest) :
    pairing.Past after := by
  rw [Past, ← hFork, Cursor.length_rest]
  exact Nat.lt_of_le_of_lt (Cursor.fuel_le_of_suffix hRest)
    (hClosed.fuel_next_lt hKind)

namespace Diverts

variable {α β : Type} {place other : Cursor}

theorem of_error
    {ending : EStateM.Result SyntaxError Cursor α}
    {error : SyntaxError}
    {stop : Cursor}
    (hDiverts : pairing.Diverts place ending)
    (hError : ending = .error error stop) :
    pairing.diverted place (some error) stop := by
  subst hError
  exact hDiverts

/- A diverted run stays so while the other one goes on. -/
theorem waits
    {ending : EStateM.Result SyntaxError Cursor α}
    {after : Cursor}
    (hDiverts : pairing.Diverts place ending)
    (hRest : after.rest <:+ place.rest) :
    pairing.Diverts after ending := by
  unfold Diverts at *
  split
  · exact pairing.waits hDiverts hRest
  · exact pairing.waits hDiverts hRest

/- Without a fork a diverted run fails. -/
theorem exists_error
    {ending : EStateM.Result SyntaxError Cursor α}
    (hDiverts : pairing.Diverts place ending)
    (hNone : pairing.first = []) :
    ∃ found stop, ending = .error found stop := by
  cases ending with
  | ok result stop => exact absurd hDiverts (pairing.whole hNone)
  | error error stop => exact ⟨error, stop, rfl⟩

/- A diverted run stays so while it goes on itself. -/
theorem bind
    {step : Parse α}
    {next : α → Parse β}
    [hStep : Parse.Forward step]
    [hNext : ∀ result, Parse.Forward (next result)]
    (hClosed : other.Closed)
    (hDiverts : pairing.Diverts place (step other)) :
    pairing.Diverts place ((step >>= next) other) := by
  have hRest := hStep.beyond other hClosed
  unfold Parse.Beyond at hRest
  cases hFirst : step other with
  | error error stop =>
      rw [hFirst] at hDiverts
      rw [Parse.bind_of_error hFirst]
      exact hDiverts
  | ok result start =>
      rw [hFirst] at hDiverts hRest
      rw [Parse.bind_of_ok hFirst]
      have hBeyond :=
        (hNext result).beyond start (hClosed.of_suffix hRest)
      unfold Parse.Beyond at hBeyond
      cases hSecond : next result start with
      | ok result stop =>
          rw [hSecond] at hBeyond
          exact pairing.goesOn hDiverts hBeyond
      | error error stop =>
          rw [hSecond] at hBeyond
          exact pairing.goesOn hDiverts hBeyond

end Diverts

namespace Twin

variable {power : Nat} {place other : Cursor}

/- Both runs are at their forks, or at the same token before them. -/
theorem fork_or_before
    (hTwin : pairing.Twin power place other) :
    (place.rest = pairing.first ∧ other.rest = pairing.second) ∨
      (place.rest ≠ pairing.first ∧
        place.current = other.current ∧
        ∃ before,
          place.ahead = before ++ pairing.first ∧
            other.ahead = before ++ pairing.second) := by
  rcases hTwin.level with ⟨before, hPlace, hOther⟩
  cases before with
  | nil => exact .inl ⟨hPlace, hOther⟩
  | cons token before =>
      rw [Cursor.rest, List.cons_append, List.cons.injEq]
        at hPlace hOther
      refine .inr ⟨fun hFork => ?_, ?_, before, hPlace.2, hOther.2⟩
      · have hLength := congrArg List.length hFork
        rw [Cursor.rest, hPlace.2, List.length_cons,
          List.length_append] at hLength
        omega
      · exact hPlace.1.trans hOther.1.symm

theorem mono
    {larger : Nat}
    (hTwin : pairing.Twin power place other)
    (hFree :
      place.rest = pairing.first → pairing.barred →
        other.current.kind.Loose power →
          other.current.kind.Loose larger) :
    pairing.Twin larger place other :=
  { hTwin with
    free := fun hFork hBarred hSought =>
      hFree hFork hBarred (hTwin.free hFork hBarred hSought) }

theorem of_zero
    (hTwin : pairing.Twin 0 place other) :
    pairing.Twin power place other :=
  hTwin.mono fun _ _ hLoose =>
    absurd hLoose TokenKind.not_loose_zero

/- Both runs have as far to go to their forks. -/
theorem fuel_eq
    (hTwin : pairing.Twin power place other) :
    other.fuel + pairing.first.length =
      place.fuel + pairing.second.length := by
  rcases hTwin.level with ⟨before, hPlace, hOther⟩
  rw [← Cursor.length_rest, ← Cursor.length_rest, hPlace, hOther,
    List.length_append, List.length_append]
  omega

/- More kinds may be looked for that the second run does not find at its fork. -/
theorem seeking
    {kinds : List TokenKind}
    (hTwin : pairing.Twin power place other)
    (hKinds :
      place.rest = pairing.first →
        other.current.kind ∈ kinds →
          other.current.kind.Loose power) :
    pairing.Twin power (place.seeking kinds)
      (other.seeking kinds) where
  previous := hTwin.previous
  sought := congrArg (· ++ kinds) hTwin.sought
  within := hTwin.within
  level := hTwin.level
  free hFork hBarred hSought :=
    (List.mem_append.mp hSought).elim
      (hTwin.free hFork hBarred) (hKinds hFork)
  closed := hTwin.closed
  closedOther := hTwin.closedOther

/- The first run is at its fork only if the second one is. -/
theorem rest_eq
    (hTwin : pairing.Twin power place other)
    (hFork : place.rest = pairing.first) :
    other.rest = pairing.second := by
  rcases hTwin.fork_or_before with hBoth | hBefore
  · exact hBoth.2
  · exact absurd hFork hBefore.1

/- Before the forks both runs are at the same token. -/
theorem current_eq
    (hTwin : pairing.Twin power place other)
    (hBefore : place.rest ≠ pairing.first) :
    place.current = other.current := by
  rcases hTwin.fork_or_before with hFork | hSame
  · exact absurd hFork.1 hBefore
  · exact hSame.2.1

/- Where the tokens that follow differ, they are those at the forks. -/
theorem next_fork
    (hTwin : pairing.Twin power place other)
    (hBefore : place.rest ≠ pairing.first)
    (hFollowing : place.following ≠ other.following) :
    (place.next.rest = pairing.first ∧
      other.next.rest = pairing.second) ∧
      place.next.current = place.following ∧
      other.next.current = other.following := by
  rcases hTwin.fork_or_before with
    hFork | ⟨-, hSame, before, hAhead, hOther⟩
  · exact absurd hFork.1 hBefore
  unfold Cursor.following at hFollowing ⊢
  rw [hAhead, hOther] at hFollowing ⊢
  cases before with
  | cons token before => exact absurd rfl hFollowing
  | nil =>
      rw [List.nil_append] at hAhead hOther
      cases hFirst : pairing.first with
      | nil =>
          rw [hFirst, pairing.empty_iff.mp hFirst] at hFollowing
          exact absurd hSame hFollowing
      | cons token tokens =>
          cases hSecond : pairing.second with
          | nil =>
              rw [pairing.empty_iff.mpr hSecond] at hFirst
              cases hFirst
          | cons otherToken others =>
              rw [hFirst] at hAhead
              rw [hSecond] at hOther
              simp [Cursor.next, Cursor.rest, hAhead, hOther]

/-
  Where a node is not continued, whatever operator the second
  run finds at its fork is too loose.
-/
theorem stopping
    {looser : Nat}
    {node nodeOther : Node Span}
    (hTwin : pairing.Twin power place other)
    (hCallee :
      Production.callee? node = Production.callee? nodeOther)
    (hStops :
      Production.Stops looser nodeOther other.current.kind)
    (hBound : looser ≤ postfixPower) :
    pairing.Twin looser
      (place.seeking (Production.continuations node))
      (other.seeking (Production.continuations nodeOther)) where
  previous := hTwin.previous
  sought := by
    rw [Production.continuations, hCallee, Cursor.seeking,
      hTwin.sought]
    rfl
  within := hTwin.within
  level := hTwin.level
  free hFork hBarred hSought := by
    rcases List.mem_append.mp hSought with hSought | hKind
    · rcases hTwin.free hFork hBarred hSought with
        ⟨found, hLevel, -⟩
      exact ⟨found, hLevel, hStops.loose found hLevel⟩
    · exact hStops.loose_of_mem hBound hKind
  closed := hTwin.closed
  closedOther := hTwin.closedOther

/- After the same token before the forks both runs are at corresponding places. -/
theorem next
    (hTwin : pairing.Twin power place other)
    (hBefore : place.rest ≠ pairing.first)
    (hKind : place.current.kind ≠ .endOfInput) :
    pairing.Twin 0 place.next other.next := by
  rcases hTwin.fork_or_before with
    hFork | ⟨-, hSame, before, hAhead, hOther⟩
  · exact absurd hFork.1 hBefore
  have hRest := hTwin.closed.rest_eq hKind
  have hOtherRest := hTwin.closedOther.rest_eq (hSame ▸ hKind)
  rw [Cursor.rest, List.cons.injEq] at hRest hOtherRest
  have hPrevious : ∀ cursor : Cursor,
      cursor.ahead = cursor.next.rest →
        cursor.next.previous = cursor.current ∧
          cursor.next.sought = [] := by
    intro cursor hNext
    cases hTokens : cursor.ahead with
    | nil =>
        rw [hTokens] at hNext
        exact absurd hNext.symm cursor.next.rest_ne_nil
    | cons token tokens => simp [Cursor.next, hTokens]
  rcases hPrevious place hRest.2 with ⟨hPlace, hNone⟩
  rcases hPrevious other hOtherRest.2 with ⟨hPlaceOther, hNoneOther⟩
  exact
    { previous := by rw [hPlace, hPlaceOther, hSame]
      sought := by rw [hNone, hNoneOther]
      within := place.rest_next_suffix.trans hTwin.within
      level :=
        ⟨before, hRest.2.symm.trans hAhead,
          hOtherRest.2.symm.trans hOther⟩
      free := fun _ _ hSought => by
        rw [hNoneOther] at hSought
        cases hSought
      closed := hTwin.closed.next
      closedOther := hTwin.closedOther.next }

end Twin

------------------------------------------------------------
-- Ways To End
------------------------------------------------------------

namespace Relates

open Parse

variable {α β γ δ : Type}
variable {scope : Scope}
variable {related : α → β → Prop}
variable {first : Parse α} {second : Parse β}
variable {place other : Cursor}

/- Steps that do the same from other places. -/
theorem of_eq
    {firstSame : Parse α}
    {secondSame : Parse β}
    {start startOther : Cursor}
    (hFirst : firstSame start = first place)
    (hSecond : secondSame startOther = second other)
    (hRelates :
      pairing.Relates scope related first second place other) :
    pairing.Relates scope related firstSame secondSame
      start startOther := by
  simp only [Relates] at hRelates ⊢
  rwa [hFirst, hSecond]

/- Where the first run has passed the fork, nothing is said. -/
theorem of_past
    {beyond : Cursor}
    (hFirst : first.Beyond place beyond)
    (hPast :
      ∀ after : Cursor, after.rest <:+ beyond.rest →
        pairing.Past after) :
    pairing.Relates scope related first second place other := by
  unfold Beyond at hFirst
  unfold Relates
  cases hStep : first place with
  | ok result after =>
      rw [hStep] at hFirst
      exact .inl (hPast after hFirst)
  | error error after =>
      rw [hStep] at hFirst
      refine hFirst.imp (fun hLimit => ⟨.inl hLimit, fun hNone => ?_⟩)
        fun hFound => .inl (hPast after hFound.1)
      exact absurd (hPast beyond (List.suffix_refl _))
        (not_past hNone)

/- Where the second run has been diverted, nothing more is said. -/
theorem of_diverts
    (hDiverts :
      ∀ after, pairing.Diverts after (second other)) :
    pairing.Relates scope related first second place other := by
  unfold Relates
  split
  · exact .inr (.inl (hDiverts _))
  · exact .inr (.inr (.inl (hDiverts _)))

/- A run that goes on while the other is diverted changes nothing. -/
theorem of_diverts_beyond
    {beyond : Cursor}
    (hFirst : first.Beyond place beyond)
    (hDiverts : pairing.Diverts beyond (second other)) :
    pairing.Relates scope related first second place other := by
  unfold Beyond at hFirst
  unfold Relates
  cases hStep : first place with
  | ok result after =>
      rw [hStep] at hFirst
      exact .inr (.inl (hDiverts.waits hFirst))
  | error error after =>
      rw [hStep] at hFirst
      exact hFirst.imp
        (fun hLimit => ⟨.inl hLimit, hDiverts.exists_error⟩)
        fun hFound => .inr (.inl (hDiverts.waits hFound.1))

/- A step in which the second run passes the token at its fork diverts. -/
theorem of_takes
    {fork forkOther : Cursor}
    (hFork : fork.rest = pairing.first)
    (hForkOther : forkOther.rest = pairing.second)
    (hKind : fork.current.kind ≠ forkOther.current.kind)
    (hEnd : forkOther.current.kind ≠ .endOfInput)
    (hTakes : second.Beyond other forkOther.next) :
    pairing.Relates scope related first second place other := by
  refine of_diverts fun after => ?_
  unfold Beyond at hTakes
  unfold Diverts
  split
  · rename_i hStep
    rw [hStep] at hTakes
    exact pairing.takes hFork hForkOther hKind hEnd hTakes
  · rename_i hStep
    rw [hStep] at hTakes
    exact pairing.takes hFork hForkOther hKind hEnd hTakes

/- What ends right before no operator ends so before loose ones. -/
theorem of_zero
    {power : Nat}
    (hRelates :
      pairing.Relates (.inside 0) related first second place
        other) :
    pairing.Relates (.inside power) related first second place
      other := by
  unfold Relates at hRelates ⊢
  cases hStep : first place with
  | ok result after =>
      rw [hStep] at hRelates
      rcases hRelates with
        hPast | hDiverts | ⟨hWhole, -⟩ | ⟨same, stop, hOk, hSame, hTwin⟩
      · exact .inl hPast
      · exact .inr (.inl hDiverts)
      · cases hWhole
      · exact .inr (.inr (.inr
          ⟨same, stop, hOk, hSame, hTwin.of_zero⟩))
  | error error after =>
      rw [hStep] at hRelates
      refine hRelates.imp_right (Or.imp_right (Or.imp_right ?_))
      rintro (⟨hWhole, -⟩ | hEchoes)
      · cases hWhole
      · exact .inr hEchoes

theorem pure
    {result : α}
    {same : β}
    (hTwin : pairing.Twin scope.power place other)
    (hSame : related result same) :
    pairing.Relates scope related (Pure.pure result)
      (Pure.pure same) place other :=
  .inr (.inr (.inr ⟨same, other, rfl, hSame, hTwin⟩))

/- Where something was looked for, both runs fail alike. -/
theorem unexpected
    (hTwin : pairing.Twin 0 place other)
    (hSought : place.sought ≠ []) :
    pairing.Relates scope related Parse.unexpected
      Parse.unexpected place other := by
  refine .inr (.inr (.inr (.inr ⟨_, other, rfl, ?_⟩)))
  exact
    { cause := rfl
      expected := by
        simp only [Cursor.expected, hTwin.sought]
      level := hTwin.level
      found :=
        hTwin.fork_or_before.symm.imp
          (fun hBefore => hBefore.2.1.symm)
          fun hFork => ⟨hFork.1, rfl, rfl⟩
      unexpected := .inl rfl
      informed := Cursor.expected_ne_nil hSought
      free := fun hFork hBarred hExpected => by
        rw [Cursor.mem_expected, hTwin.sought] at hExpected
        exact TokenKind.not_loose_zero (hTwin.free hFork hBarred hExpected) }

theorem tooDeep
    {cause : SyntaxCause}
    {otherCause : SyntaxCause}
    (hCause :
      SyntaxError.isDepthLimit ⟨cause, place.current, []⟩ = true) :
    pairing.Relates scope related (Parse.tooDeep cause)
      (Parse.tooDeep otherCause) place other :=
  .inl ⟨.inl hCause, fun _ => ⟨_, _, rfl⟩⟩

/-
  One step after another. The first ends inside the script,
  and the second goes on from corresponding places.
-/
theorem bind
    {start power : Nat}
    {between : γ → δ → Prop}
    {first : Parse γ}
    {second : Parse δ}
    {next : γ → Parse α}
    {follow : δ → Parse β}
    [hForward : Forward first]
    [hForwardOther : Forward second]
    [hNextForward : ∀ result, Forward (next result)]
    [hFollowForward : ∀ result, Forward (follow result)]
    (hStart : pairing.Twin start place other)
    (hFirst :
      pairing.Relates (.inside power) between first second
        place other)
    (hNext :
      ∀ result same after stop,
        first place = .ok result after →
        second other = .ok same stop →
        between result same →
        pairing.Twin power after stop →
        pairing.Relates scope related (next result) (follow same)
          after stop) :
    pairing.Relates scope related (first >>= next)
      (second >>= follow) place other := by
  have hClosed := hStart.closed
  have hClosedOther := hStart.closedOther
  have hRest := hForward.beyond place hClosed
  unfold Relates at hFirst
  unfold Beyond at hRest
  cases hStep : first place with
  | error error after =>
      rw [hStep] at hFirst
      rw [Relates, bind_of_error hStep]
      rcases hFirst with
        hLimit | hPast | hDiverts | ⟨hWhole, -⟩ | ⟨same, stop, hSame, hEchoes⟩
      · refine .inl (hLimit.imp_right fun hFails hNone => ?_)
        rcases hFails hNone with ⟨found, stop, hFound⟩
        exact ⟨found, stop, bind_of_error hFound follow⟩
      · exact .inr (.inl hPast)
      · exact .inr (.inr (.inl (hDiverts.bind hClosedOther)))
      · cases hWhole
      · exact .inr (.inr (.inr (.inr
          ⟨same, stop, bind_of_error hSame _, hEchoes⟩)))
  | ok result after =>
      have hWhole := bind_of_ok hStep next
      rw [hStep] at hFirst hRest
      have hBeyond :=
        (hNextForward result).beyond after (hClosed.of_suffix hRest)
      rcases hFirst with
        hPast | hDiverts | ⟨hWhole, -⟩ | ⟨same, stop, hSame, hResult, hTwin⟩
      · exact of_past (hBeyond.of_eq hWhole) fun _ => hPast.of_suffix
      · exact of_diverts_beyond (hBeyond.of_eq hWhole)
          (hDiverts.bind hClosedOther)
      · cases hWhole
      · exact of_eq hWhole (bind_of_ok hSame follow)
          (hNext result same after stop hStep hSame hResult hTwin)

------------------------------------------------------------
-- Basic Steps
------------------------------------------------------------

/- A production ends by marking what it gives with a span. -/
theorem spanned
    {mark : Span → α}
    {markOther : Span → β}
    (hTwin : pairing.Twin scope.power place other)
    (start : Span)
    (hSame :
      related (mark (start.through place.previous.span))
        (markOther (start.through place.previous.span))) :
    pairing.Relates scope related
      (spanFrom start >>= fun span => Pure.pure (mark span))
      (spanFrom start >>= fun span => Pure.pure (markOther span))
      place other := by
  refine .inr (.inr (.inr ⟨_, other, rfl, ?_, hTwin⟩))
  rw [← hTwin.previous]
  exact hSame

/- In an embedded constant both runs fail alike where no right kind stands. -/
theorem unexpectedInLiteral
    {kinds : List TokenKind}
    (hTwin : pairing.Twin 0 place other)
    (hKinds : kinds ≠ [])
    (hFree :
      place.rest = pairing.first → other.current.kind ∉ kinds) :
    pairing.Relates scope related (Embedded.unexpected kinds)
      (Embedded.unexpected kinds) place other := by
  refine .inr (.inr (.inr (.inr ⟨_, other, rfl, ?_⟩)))
  exact
    { cause := rfl
      expected := rfl
      level := hTwin.level
      found :=
        hTwin.fork_or_before.symm.imp
          (fun hBefore => hBefore.2.1.symm)
          fun hFork => ⟨hFork.1, rfl, rfl⟩
      unexpected := .inr rfl
      informed := hKinds
      free := fun hFork _ => hFree hFork }

/- What is done with the places themselves. -/
theorem get
    {next : Cursor → Parse α}
    {follow : Cursor → Parse β}
    (hNext :
      pairing.Relates scope related (next place) (follow other)
        place other) :
    pairing.Relates scope related (MonadState.get >>= next)
      (MonadState.get >>= follow) place other :=
  of_eq (get_bind_apply place next) (get_bind_apply other follow)
    hNext

/- Both runs take the same token, or the first one passes the fork. -/
theorem advance
    {power : Nat}
    {next : Token → Parse α}
    {follow : Token → Parse β}
    [∀ token, Forward (next token)]
    (hTwin : pairing.Twin power place other)
    (hKind : place.current.kind ≠ .endOfInput)
    (hNext :
      place.current = other.current →
        pairing.Twin 0 place.next other.next →
          pairing.Relates scope related (next place.current)
            (follow place.current) place.next other.next) :
    pairing.Relates scope related (Parse.advance >>= next)
      (Parse.advance >>= follow) place other := by
  by_cases hFork : place.rest = pairing.first
  · exact of_past (beyond_advance hTwin.closed) fun _ =>
      past_of_next hFork hTwin.closed hKind
  · have hSame := hTwin.current_eq hFork
    refine of_eq (advance_bind_apply place next) ?_
      (hNext hSame (hTwin.next hFork hKind))
    rw [advance_bind_apply, hSame]

------------------------------------------------------------
-- Decisions
------------------------------------------------------------

/-
  Both runs decide by the token at their place whether to take
  it. At the fork they may decide in different ways: then the
  first run passes the fork, or the second is diverted.
-/
theorem decide
    {power : Nat}
    (takes : TokenKind → Prop)
    (hTwin : pairing.Twin power place other)
    (hEnd : ¬ takes .endOfInput)
    (hPasses :
      takes place.current.kind → first.Beyond place place.next)
    (hPassesOther :
      takes other.current.kind → second.Beyond other other.next)
    (hTaken :
      takes place.current.kind →
        place.rest ≠ pairing.first →
          pairing.Relates scope related first second place other)
    (hOther :
      ¬ takes place.current.kind →
        ¬ takes other.current.kind →
          pairing.Relates scope related first second place other) :
    pairing.Relates scope related first second place other := by
  have hKind : ∀ kind, takes kind → kind ≠ .endOfInput :=
    fun kind hTakes hSame => hEnd (hSame ▸ hTakes)
  by_cases hPlace : takes place.current.kind
  · by_cases hFork : place.rest = pairing.first
    · exact of_past (hPasses hPlace) fun _ =>
        past_of_next hFork hTwin.closed (hKind _ hPlace)
    · exact hTaken hPlace hFork
  · by_cases hOtherPlace : takes other.current.kind
    · have hDiffer : place.current.kind ≠ other.current.kind :=
        fun hSame => hPlace (hSame ▸ hOtherPlace)
      rcases hTwin.fork_or_before with hFork | hBefore
      · exact of_takes hFork.1 hFork.2 hDiffer
          (hKind _ hOtherPlace) (hPassesOther hOtherPlace)
      · exact absurd (congrArg Token.kind hBefore.2.1) hDiffer
    · exact hOther hPlace hOtherPlace

theorem choice
    {takes : TokenKind → Bool}
    {taken : Token → Parse α}
    {takenOther : Token → Parse β}
    [∀ token, Forward (taken token)]
    [∀ token, Forward (takenOther token)]
    (hTwin : pairing.Twin 0 place other)
    (hEnd : takes .endOfInput = false)
    (hTaken :
      takes place.current.kind = true →
        pairing.Twin 0 place.next other.next →
          pairing.Relates scope related (taken place.current)
            (takenOther place.current) place.next other.next)
    (hOther :
      takes other.current.kind = false →
        pairing.Relates scope related first second place other) :
    pairing.Relates scope related
      (Parse.choice takes taken first)
      (Parse.choice takes takenOther second) place other := by
  refine decide (fun kind => takes kind = true) hTwin
    (by simp [hEnd]) (beyond_choice hTwin.closed)
    (beyond_choice hTwin.closedOther) (fun hTakes hBefore => ?_)
    fun hPlace hOtherPlace => ?_
  · have hSame := hTwin.current_eq hBefore
    refine of_eq (choice_of_takes hTakes) ?_
      (hTaken hTakes (hTwin.next hBefore fun hKind => ?_))
    · rw [choice_of_takes (hSame ▸ hTakes), hSame]
    · rw [hKind, hEnd] at hTakes
      cases hTakes
  · rw [Bool.not_eq_true] at hPlace hOtherPlace
    exact of_eq (choice_of_not_takes hPlace)
      (choice_of_not_takes hOtherPlace) (hOther hOtherPlace)

theorem test
    {kind : TokenKind}
    {taken : Token → Parse α}
    {takenOther : Token → Parse β}
    [∀ token, Forward (taken token)]
    [∀ token, Forward (takenOther token)]
    (hTwin : pairing.Twin 0 place other)
    (hEnd : kind ≠ .endOfInput)
    (hTaken :
      place.current.kind = kind →
        pairing.Twin 0 place.next other.next →
          pairing.Relates scope related (taken place.current)
            (takenOther place.current) place.next other.next)
    (hOther :
      pairing.Twin 0 (place.seeking [kind])
          (other.seeking [kind]) →
        pairing.Relates scope related first second
          (place.seeking [kind]) (other.seeking [kind])) :
    pairing.Relates scope related (Parse.test kind taken first)
      (Parse.test kind takenOther second) place other := by
  refine decide (· = kind) hTwin (Ne.symm hEnd)
    (beyond_test hTwin.closed) (beyond_test hTwin.closedOther)
    (fun hTakes hBefore => ?_) fun hPlace hOtherPlace => ?_
  · have hSame := hTwin.current_eq hBefore
    refine of_eq (test_of_eq hTakes) ?_
      (hTaken hTakes (hTwin.next hBefore (hTakes ▸ hEnd)))
    rw [test_of_eq (hSame ▸ hTakes), hSame]
  · refine of_eq (test_of_ne hPlace) (test_of_ne hOtherPlace)
      (hOther (hTwin.seeking fun _ hFound => ?_))
    exact absurd (List.mem_singleton.mp hFound) hOtherPlace

/- An expected token is taken, or both runs fail alike. -/
theorem expected
    {kind : TokenKind}
    {taken : Token → Parse α}
    {takenOther : Token → Parse β}
    [∀ token, Forward (taken token)]
    [∀ token, Forward (takenOther token)]
    (hTwin : pairing.Twin 0 place other)
    (hEnd : kind ≠ .endOfInput)
    (hTaken :
      place.current.kind = kind →
        pairing.Twin 0 place.next other.next →
          pairing.Relates scope related (taken place.current)
            (takenOther place.current) place.next other.next) :
    pairing.Relates scope related
      (Parse.test kind taken Parse.unexpected)
      (Parse.test kind takenOther Parse.unexpected) place other :=
  test hTwin hEnd hTaken fun hSeeking =>
    unexpected hSeeking
      (Cursor.sought_seeking_ne_nil (List.cons_ne_nil _ _))

/- A token of one of two kinds is taken, or both runs fail alike. -/
theorem either
    {kind another : TokenKind}
    {next : Parse α}
    {follow : Parse β}
    [Forward next]
    [Forward follow]
    (hTwin : pairing.Twin 0 place other)
    (hEnd : kind ≠ .endOfInput)
    (hEndAnother : another ≠ .endOfInput)
    (hNext :
      place.next.fuel < place.fuel →
        pairing.Twin 0 place.next other.next →
          pairing.Relates scope related next follow place.next
            other.next) :
    pairing.Relates scope related (Parse.either kind another next)
      (Parse.either kind another follow) place other := by
  refine test hTwin hEnd (fun hKind => ?_) fun hSeeking =>
    expected hSeeking hEndAnother fun hKind => ?_
  · exact hNext (hTwin.closed.fuel_next_lt (hKind ▸ hEnd))
  · rw [Cursor.next_seeking, Cursor.next_seeking]
    exact hNext
      (hTwin.closed.fuel_next_lt
        (hKind ▸ hEndAnother : place.current.kind ≠ _))

/- Both runs go on alike whether or not there is a token to be taken. -/
theorem optional
    {kind : TokenKind}
    [Forward first]
    [Forward second]
    (hTwin : pairing.Twin 0 place other)
    (hEnd : kind ≠ .endOfInput)
    (hNext :
      ∀ {here there : Cursor},
        here.fuel ≤ place.fuel →
          pairing.Twin 0 here there →
            pairing.Relates scope related first second here
              there) :
    pairing.Relates scope related (Parse.optional kind first)
      (Parse.optional kind second) place other :=
  test hTwin hEnd (fun _ => hNext place.fuel_next_le)
    (hNext (Nat.le_refl _))

theorem oneOf
    {kinds : List TokenKind}
    {taken : Token → Parse α}
    {takenOther : Token → Parse β}
    [∀ token, Forward (taken token)]
    [∀ token, Forward (takenOther token)]
    (hTwin : pairing.Twin 0 place other)
    (hEnd : .endOfInput ∉ kinds)
    (hKinds : kinds ≠ [])
    (hTaken :
      place.current.kind ∈ kinds →
        pairing.Twin 0 place.next other.next →
          pairing.Relates scope related (taken place.current)
            (takenOther place.current) place.next other.next) :
    pairing.Relates scope related (Embedded.oneOf kinds taken)
      (Embedded.oneOf kinds takenOther) place other := by
  refine choice hTwin (by simpa using hEnd)
    (fun hTakes => hTaken (by simpa using hTakes))
    fun hOther => unexpectedInLiteral hTwin hKinds fun _ => ?_
  simpa using hOther

/-
  Both runs decide by the token at their place and the one
  after it, whose kind only matters after an identifier. The
  one after it may be the token at the fork.
-/
theorem lookahead
    {ahead : Token → TokenKind → Bool}
    {taken : Token → Parse α}
    {takenOther : Token → Parse β}
    (hTwin : pairing.Twin 0 place other)
    (hAhead :
      ∀ token following, ahead token following = true →
        token.kind = .identifier ∧ following ≠ .endOfInput)
    (hPasses :
      ∀ cursor : Cursor, cursor.Closed →
        ahead cursor.current cursor.following.kind = true →
          (taken cursor.current).Beyond cursor cursor.next.next)
    (hPassesOther :
      ∀ cursor : Cursor, cursor.Closed →
        ahead cursor.current cursor.following.kind = true →
          (takenOther cursor.current).Beyond cursor
            cursor.next.next)
    (hOtherPasses :
      ∀ cursor : Cursor, cursor.Closed →
        cursor.current.kind = .identifier →
          first.Beyond cursor cursor.next)
    (hTaken :
      place.rest ≠ pairing.first →
        ahead place.current place.following.kind = true →
          pairing.Relates scope related (taken place.current)
            (takenOther place.current) place other)
    (hOther :
      pairing.Relates scope related first second place other) :
    pairing.Relates scope related
      (Parse.lookahead ahead taken first)
      (Parse.lookahead ahead takenOther second) place other := by
  have hPassesHere
      (hHere : ahead place.current place.following.kind = true) :
      (Parse.lookahead ahead taken first).Beyond place
        place.next.next :=
    (hPasses place hTwin.closed hHere).of_eq
      (lookahead_of_ahead hHere)
  have hPassesThere
      (hThere : ahead other.current other.following.kind = true) :
      (Parse.lookahead ahead takenOther second).Beyond other
        other.next.next :=
    (hPassesOther other hTwin.closedOther hThere).of_eq
      (lookahead_of_ahead hThere)
  have hNeither
      (hHere : ahead place.current place.following.kind = false)
      (hThere : ahead other.current other.following.kind = false) :
      pairing.Relates scope related
        (Parse.lookahead ahead taken first)
        (Parse.lookahead ahead takenOther second) place other :=
    of_eq (lookahead_of_not_ahead hHere)
      (lookahead_of_not_ahead hThere) hOther
  have hIdentifier : TokenKind.identifier ≠ .endOfInput := nofun
  cases hHere : ahead place.current place.following.kind with
  | false =>
      cases hThere : ahead other.current other.following.kind with
      | false => exact hNeither hHere hThere
      | true =>
          rcases hAhead _ _ hThere with ⟨hName, hFollowing⟩
          by_cases hFork : place.rest = pairing.first
          · by_cases hKind : place.current.kind = .identifier
            · refine of_past
                ((hOtherPasses place hTwin.closed hKind).of_eq
                  (lookahead_of_not_ahead hHere))
                fun _ => past_of_next hFork hTwin.closed ?_
              exact hKind ▸ hIdentifier
            · refine of_takes hFork (hTwin.rest_eq hFork)
                (hName ▸ hKind) (hName ▸ hIdentifier) ?_
              exact (hPassesThere hThere).mono
                other.next.rest_next_suffix
          · have hDiffer : place.following.kind ≠ other.following.kind := by
              intro hSame
              rw [hTwin.current_eq hFork, hSame, hThere] at hHere
              cases hHere
            rcases hTwin.next_fork hFork (hDiffer ∘ congrArg _) with
              ⟨⟨hNext, hNextOther⟩, hKind, hKindOther⟩
            refine of_takes hNext hNextOther ?_ ?_
              (hPassesThere hThere)
            · rwa [hKind, hKindOther]
            · rwa [hKindOther]
  | true =>
      rcases hAhead _ _ hHere with ⟨hName, hFollowing⟩
      by_cases hFork : place.rest = pairing.first
      · refine of_past
          ((hPassesHere hHere).mono place.next.rest_next_suffix)
          fun _ => past_of_next hFork hTwin.closed ?_
        exact hName ▸ hIdentifier
      · by_cases hSame : place.following.kind = other.following.kind
        · have hCurrent := hTwin.current_eq hFork
          have hThere := hHere
          rw [hCurrent, hSame] at hThere
          refine of_eq (lookahead_of_ahead hHere) ?_
            (hTaken hFork hHere)
          rw [lookahead_of_ahead hThere, hCurrent]
        · rcases hTwin.next_fork hFork (hSame ∘ congrArg _) with
            ⟨⟨hNext, -⟩, hKind, -⟩
          exact of_past (hPassesHere hHere) fun _ =>
            past_of_next hNext hTwin.closed.next
              (hKind.symm ▸ hFollowing)

/-
  A whole script ends at the end of its tokens, where both
  runs succeed. At the fork one of them may end alone.
-/
theorem finish
    {next : Parse α}
    {nextOther : Parse β}
    [hForward : Forward first]
    (hTwin : pairing.Twin 0 place other)
    (hEnds : ∀ cursor, ∃ result, next cursor = .ok result cursor)
    (hEndsOther :
      ∀ cursor, ∃ result, nextOther cursor = .ok result cursor)
    (hTogether :
      place.current = other.current →
        pairing.Twin 0 (place.seeking [.endOfInput])
            (other.seeking [.endOfInput]) →
          pairing.Relates .whole related next nextOther
            (place.seeking [.endOfInput])
            (other.seeking [.endOfInput]))
    (hOther :
      pairing.Twin 0 (place.seeking [.endOfInput])
          (other.seeking [.endOfInput]) →
        pairing.Relates .whole related first second
          (place.seeking [.endOfInput])
          (other.seeking [.endOfInput])) :
    pairing.Relates .whole related
      (check .endOfInput >>= fun here =>
        if here then next else first)
      (check .endOfInput >>= fun here =>
        if here then nextOther else second) place other := by
  have hHere :=
    check_bind_apply .endOfInput
      (fun here => if here then next else first) place
  have hThere :=
    check_bind_apply .endOfInput
      (fun here => if here then nextOther else second) other
  by_cases hPlace : place.current.kind = .endOfInput
  · rw [decide_eq_true hPlace, if_pos rfl] at hHere
    by_cases hFork : place.rest = pairing.first
    · rcases hEnds (place.seeking [.endOfInput]) with
        ⟨result, hResult⟩
      rw [Relates, hHere, hResult]
      exact .inr (.inr (.inl ⟨rfl, hFork⟩))
    · have hSame := hTwin.current_eq hFork
      rw [← hSame, decide_eq_true hPlace, if_pos rfl] at hThere
      exact of_eq hHere hThere
        (hTogether hSame
          (hTwin.seeking fun hFound => absurd hFound hFork))
  · rw [decide_eq_false hPlace, if_neg Bool.false_ne_true] at hHere
    by_cases hEnd : other.current.kind = .endOfInput
    · rw [decide_eq_true hEnd, if_pos rfl] at hThere
      have hFork : place.rest = pairing.first := by
        rcases hTwin.fork_or_before with hFork | ⟨-, hSame, -⟩
        · exact hFork.1
        · exact absurd (hSame ▸ hEnd) hPlace
      rcases hEndsOther (other.seeking [.endOfInput]) with
        ⟨result, hResult⟩
      have hFinishes :
          pairing.Finishes
            (nextOther (other.seeking [.endOfInput])) :=
        ⟨_, _, hResult, hTwin.rest_eq hFork, hEnd⟩
      have hBeyond :=
        hForward.beyond (place.seeking [.endOfInput]) hTwin.closed
      rw [Relates, hHere, hThere]
      cases hStep : first (place.seeking [.endOfInput]) with
      | ok result after =>
          have hRest := hBeyond.of_ok hStep
          rw [Cursor.rest_seeking, hFork] at hRest
          exact (past_or_eq hRest).imp_right fun hSame =>
            .inr (.inl ⟨rfl, hSame⟩)
      | error error after =>
          exact .inr (.inr (.inr (.inl ⟨rfl, hFinishes⟩)))
    · rw [decide_eq_false hEnd, if_neg Bool.false_ne_true] at hThere
      exact of_eq hHere hThere
        (hOther (hTwin.seeking fun _ hFound =>
          absurd (List.mem_singleton.mp hFound) hEnd))

------------------------------------------------------------
-- Runs Without A Fork
------------------------------------------------------------

section WithoutFork

variable (hNone : pairing.first = [])
variable
  (hRelates :
    pairing.Relates scope related first second place other)

include hNone hRelates

/- Where the first run succeeds the second does, or it is diverted. -/
theorem of_ok
    {result : α}
    {after : Cursor}
    (hOk : first place = .ok result after) :
    pairing.Diverts after (second other) ∨
      ∃ same stop,
        second other = .ok same stop ∧ related result same := by
  unfold Relates at hRelates
  rw [hOk] at hRelates
  rcases hRelates with
    hPast | hDiverts | ⟨-, hFork⟩ | ⟨same, stop, hSame, hResult, -⟩
  · exact absurd hPast (not_past hNone)
  · exact .inl hDiverts
  · exact absurd (hFork.trans hNone) after.rest_ne_nil
  · exact .inr ⟨same, stop, hSame, hResult⟩

/- Where the first run fails the second one fails too. -/
theorem of_error
    {error : SyntaxError}
    {after : Cursor}
    (hError : first place = .error error after) :
    ((error.isDepthLimit = true ∨ pairing.ignored error) ∧
        ∃ found stop, second other = .error found stop) ∨
      pairing.Diverts after (second other) ∨
      ∃ same stop,
        second other = .error same stop ∧
          pairing.Echoes error after same stop := by
  unfold Relates at hRelates
  rw [hError] at hRelates
  rcases hRelates with
    hLimits | hPast | hDiverts | ⟨-, hFinishes⟩ | hEchoes
  · exact .inl (hLimits.imp_right fun hFails => hFails hNone)
  · exact absurd hPast (not_past hNone)
  · exact .inr (.inl hDiverts)
  · rcases hFinishes with ⟨_, stop, -, hFork, -⟩
    rw [pairing.empty_iff.mp hNone] at hFork
    exact absurd hFork stop.rest_ne_nil
  · exact .inr (.inr hEchoes)

/- Only a first run that succeeds lets the second one succeed. -/
theorem exists_ok
    {same : β}
    {stop : Cursor}
    (hOk : second other = .ok same stop) :
    ∃ result after,
      first place = .ok result after ∧ related result same := by
  cases hStep : first place with
  | ok result after =>
      rcases of_ok hNone hRelates hStep with
        hDiverts | ⟨_, _, hSame, hResult⟩
      · rcases hDiverts.exists_error hNone with ⟨_, _, hError⟩
        rw [hOk] at hError
        cases hError
      · rw [hOk] at hSame
        cases hSame
        exact ⟨result, after, rfl, hResult⟩
  | error error after =>
      have hFails : ∃ found stop, second other = .error found stop := by
        rcases of_error hNone hRelates hStep with
          hLimit | hDiverts | ⟨found, stop, hSame, -⟩
        · exact hLimit.2
        · exact hDiverts.exists_error hNone
        · exact ⟨found, stop, hSame⟩
      rcases hFails with ⟨_, _, hError⟩
      rw [hOk] at hError
      cases hError

end WithoutFork

end Relates

end Pairing

end ExperimentScript
