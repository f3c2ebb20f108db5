import ExperimentScript.Proofs.Parser.Fork

/-
  Two runs of reading over scripts that fork.

  The rules for steps of two runs are put together along the
  productions. At each lookahead, and at each list or map that
  has just been opened, the kind that is not looked for is one
  that is overlooked.

  Main declarations:
    * `ExperimentScript.Fork.relates_statement`
    * `ExperimentScript.Fork.relates_script`
-/

namespace ExperimentScript

/- Whatever is not looked for after a node stops it. -/
theorem Production.Stops.of_not_mem
    {power : Nat}
    {node : Node Span}
    {kind : TokenKind}
    (hKind : kind ∉ continuations node) :
    Stops power node kind := by
  simp only [continuations, List.mem_append, List.mem_singleton,
    not_or] at hKind
  rcases hKind with ⟨⟨hBetween, hIndex⟩, hCall⟩
  refine
    ⟨fun hKind => absurd hKind hIndex, fun hParen hCallee => ?_,
      fun found hFound => ?_⟩
  · simp [hCallee, hParen] at hCall
  · rw [TokenKind.betweenOperands, List.mem_filter,
      TokenKind.power?_eq, hFound] at hBetween
    exact absurd ⟨kind.mem_all, rfl⟩ hBetween

namespace Fork

open Parse
open Pairing (Fueled)

variable {fork : Fork}
variable {place other : Cursor}
variable {strict : Bool}

------------------------------------------------------------
-- Fuel
------------------------------------------------------------

/- Less fuel will do where the first run has taken a token. -/
theorem Twin.less
    {fuel fuelOther : Nat}
    {after stop : Cursor}
    (hTwin : fork.Twin place other)
    (hFueled : Fueled (fuel + 1) (fuelOther + 1) place other)
    (hAfter : fork.Twin after stop)
    (hLess : after.fuel < place.fuel) :
    Fueled fuel fuelOther after stop := by
  have hFuel := hFueled.place
  have hFuelOther := hFueled.other
  have hStart := hTwin.fuel_eq
  have hStop := hAfter.fuel_eq
  exact ⟨by omega, by omega⟩

------------------------------------------------------------
-- Embedded Constants
------------------------------------------------------------

namespace Relates

open Embedded

section Parts

variable {value : Parse Value} [Forward value]
variable
  (hValue :
    ∀ {place other : Cursor}, fork.Twin place other →
      place.previous.kind.endsOperand = false →
        fork.Relates .constant value value place other)

include hValue

theorem items
    {fuel fuelOther : Nat}
    (hTwin : fork.Twin place other)
    (hPrevious : place.previous.kind.endsOperand = false)
    (hFueled : Fueled fuel fuelOther place other) :
    fork.Relates .constant (Embedded.items value fuel)
      (Embedded.items value fuelOther) place other := by
  induction fuel generalizing fuelOther place other with
  | zero => exact absurd hFueled.place (Nat.not_le.mpr place.fuel_pos)
  | succ fuel ih =>
      rcases hFueled.exists_succ with ⟨_, fuelOther, _, rfl⟩
      rw [items_succ, items_succ]
      refine .bind hTwin (hValue hTwin hPrevious)
        fun item after stop hOk hAfter => ?_
      refine .oneOf hAfter (by decide) fun hKind hNext => ?_
      split
      · rename_i hComma
        have hEnd : after.current.kind ≠ .endOfInput := by
          simp [hComma]
        have hItem := (Forward.beyond _ hTwin.closed).fuel_le hOk
        have hLast := hAfter.closed.fuel_next_lt hEnd
        have hLater : after.next.previous.kind.endsOperand = false := by
          rw [hAfter.closed.previous_next hEnd, hComma]
          rfl
        exact .bind hNext
          (ih hNext hLater (hTwin.less hFueled hNext (by omega)))
          fun _ _ _ _ hRest => .pure hRest _
      · exact .pure hNext _

theorem list
    (hTwin : fork.Twin place other)
    (hPrevious : place.previous.kind = .leftBracket)
    (hOverlooks :
      place.rest = fork.first →
        fork.other.kind = .rightBracket →
          Overlooks fork.front fork.other.kind) :
    fork.Relates .constant (Embedded.list value)
      (Embedded.list value) place other := by
  rw [list_eq]
  have hOpens : place.previous.kind.endsOperand = false := by
    rw [hPrevious]
    rfl
  refine .choice hTwin rfl (fun _ hNext => .pure hNext _)
    (fun hFork hDiffer hKind => ?_) (.get ?_)
  · exact
      alone_of_overlooks (Forward.beyond place hTwin.closed) hFork
        hDiffer (hOverlooks hFork (of_decide_eq_true hKind))
  · exact .bind hTwin (items hValue hTwin hOpens (.refl _ _))
      fun _ _ _ _ hEnd => .pure hEnd _

theorem fields
    {fuel fuelOther : Nat}
    (hTwin : fork.Twin place other)
    (hFueled : Fueled fuel fuelOther place other)
    (earlier : Fields Value) :
    fork.Relates .constant (Embedded.fields value fuel earlier)
      (Embedded.fields value fuelOther earlier) place other := by
  induction fuel generalizing fuelOther place other earlier with
  | zero => exact absurd hFueled.place (Nat.not_le.mpr place.fuel_pos)
  | succ fuel ih =>
      rcases hFueled.exists_succ with ⟨_, fuelOther, _, rfl⟩
      rw [fields_succ, fields_succ]
      refine .oneOf hTwin (by decide) fun hName hNamed => ?_
      refine .oneOf hNamed (by decide) fun hColon hAssigned => ?_
      rw [List.mem_singleton] at hColon
      have hLater :
          place.next.next.previous.kind.endsOperand = false := by
        rw [hNamed.closed.previous_next (by simp [hColon]), hColon]
        rfl
      refine .bind hAssigned (hValue hAssigned hLater)
        fun item after stop hOk hAfter => ?_
      refine .oneOf hAfter (by decide) fun hKind hNext => ?_
      split
      · rename_i hComma
        have hFirst := place.fuel_next_le
        have hSecond := place.next.fuel_next_le
        have hItem :=
          (Forward.beyond _ hAssigned.closed).fuel_le hOk
        have hLast :=
          hAfter.closed.fuel_next_lt (by simp [hComma])
        exact ih hNext (hTwin.less hFueled hNext (by omega)) _
      · exact .pure hNext _

theorem map
    (hTwin : fork.Twin place other)
    (hOverlooks :
      place.rest = fork.first →
        fork.other.kind = .rightBrace →
          Overlooks fork.front fork.other.kind) :
    fork.Relates .constant (Embedded.map value)
      (Embedded.map value) place other := by
  rw [map_eq]
  refine .choice hTwin rfl (fun _ hNext => .pure hNext _)
    (fun hFork hDiffer hKind => ?_) (.get ?_)
  · exact
      alone_of_overlooks (Forward.beyond place hTwin.closed) hFork
        hDiffer (hOverlooks hFork (of_decide_eq_true hKind))
  · exact .bind hTwin (fields hValue hTwin (.refl _ _) [])
      fun _ _ _ _ hEnd => .pure hEnd _

end Parts

section Strings

variable (hKind : place.current.kind = .string) (depth : Nat)

include hKind

/- Both runs make the same of a string that both find. -/
theorem string
    (hTwin : fork.Twin place other)
    (hSame : other.current = place.current) :
    fork.Relates .constant (Embedded.value strict (depth + 1))
      (Embedded.value strict (depth + 1)) place other := by
  have hKindOther : other.current.kind = .string :=
    hSame.symm ▸ hKind
  have hEnd : place.current.kind ≠ .endOfInput := by simp [hKind]
  have hFirst := value_of_string hKind strict depth
  have hSecond := value_of_string hKindOther strict depth
  rw [hSame] at hSecond
  rcases stringValue_cases strict (depth + 1) place.current with
    ⟨value, hValue⟩ | ⟨-, text, -, -, hValue⟩ | hValue
  · rw [hValue] at hFirst hSecond
    by_cases hFork : place.rest = fork.first
    · rw [Relates, hFirst]
      exact .inl (past_next hFork hTwin.closed hEnd)
    · exact taking hFirst hSecond (.inl rfl) hTwin.closed hEnd
        (.pure (hTwin.next hFork hEnd) value)
  · rw [hValue] at hFirst hSecond
    have hLeft :
        place.next.left ⟨.notJson, place.current, []⟩ =
          place.rest :=
      (hTwin.closed.rest_eq hEnd).symm
    have hLeftOther :
        other.next.left ⟨.notJson, place.current, []⟩ =
          other.rest := by
      rw [hTwin.closedOther.rest_eq (by simp [hKindOther]), hSame]
      rfl
    rw [Relates, hFirst]
    refine .inr (.inr (.inr
      ⟨fun _ hPart => absurd rfl hPart, _, _, hSecond, ?_⟩))
    exact
      { cause := rfl
        expected := rfl
        level := by
          rw [hLeft, hLeftOther]
          exact hTwin.level
        found := rfl
        foundOther := rfl }
  · rw [hValue] at hFirst
    rw [Relates, hFirst]
    exact .inl rfl

/- The first run passes a string at the fork, or tells that it is no JSON. -/
theorem string_alone
    (hClosed : place.Closed)
    (hFork : place.rest = fork.first)
    (hDiffer : fork.found ≠ fork.other) :
    fork.Alone .constant (Embedded.value strict (depth + 1))
      place := by
  have hEnd : place.current.kind ≠ .endOfInput := by simp [hKind]
  have hFirst := value_of_string hKind strict depth
  unfold Alone
  rw [hFirst]
  rcases stringValue_cases strict (depth + 1) place.current with
    ⟨value, hValue⟩ | ⟨-, text, -, -, hValue⟩ | hValue
  · rw [hValue]
    exact .inl (past_next hFork hClosed hEnd)
  · rw [hValue]
    exact .inr (.inr
      ⟨hDiffer, .inl (by simp [SyntaxError.IsUnexpected])⟩)
  · rw [hValue]
    exact .inl rfl

end Strings

theorem value
    (hTwin : fork.Twin place other)
    (hPrevious : place.previous.kind.endsOperand = false)
    (depth : Nat) :
    fork.Relates .constant (Embedded.value strict depth)
      (Embedded.value strict depth) place other := by
  induction depth generalizing place other with
  | zero => exact .tooDeep rfl
  | succ depth ih =>
      by_cases hString : place.current.kind = .string
      · by_cases hSame : other.current = place.current
        · exact string hString depth hTwin hSame
        have hFork : place.rest = fork.first :=
          Classical.byContradiction (hSame ∘ hTwin.current_eq)
        rcases hTwin.current_fork hFork with ⟨hFound, hFoundOther⟩
        refine (string_alone hString depth hTwin.closed hFork ?_).relates
          rfl
        rw [← hFound, ← hFoundOther]
        exact Ne.symm hSame
      refine .decide (· ∈ valueStarts) hTwin (by decide)
        (fun hStarts =>
          beyond_value hTwin.closed hStarts hString _ _)
        (fun hStarts hBefore => ?_)
        (fun hStarts hFork hDiffer hKind => ?_)
        fun hStarts hStartsOther => ?_
      · have hKind : place.current.kind ≠ .endOfInput := by
          intro hEnd
          rw [hEnd] at hStarts
          revert hStarts
          decide
        have hAfter := hTwin.closed.previous_next hKind
        refine .of_eq (current_bind_apply place _)
          (current_bind_apply other _) ?_
        rw [hTwin.current_eq hBefore]
        split
        case h_1 hOpening =>
          refine .advance hTwin hKind fun hNext =>
            .list ih hNext (by rw [hAfter, hOpening])
              fun hFork hClosing => ?_
          rcases hTwin.front_last hKind hFork
              (fun kind => !kind.endsOperand)
              (by rw [hPrevious]; rfl) with
            ⟨before, hFront, hBefore⟩
          rw [hFront, hClosing]
          refine .list (fun token hToken => ?_) hOpening
          simpa using hBefore token hToken
        case h_2 hOpening =>
          refine .advance hTwin hKind fun hNext =>
            .map ih hNext fun hFork hClosing => ?_
          rcases hTwin.front_eq hKind hFork with ⟨before, hFront, -⟩
          rw [hFront, hClosing]
          exact .map hOpening
        case h_5 => exact absurd ‹_› hString
        case h_9 => exact .unexpectedInLiteral hTwin valueStarts
        all_goals exact .advance hTwin hKind fun hNext => .pure hNext _
      · have hAlone :=
          alone_of_expected (α := Value) hFork hDiffer hKind
        unfold Alone at hAlone ⊢
        rwa [value_of_not_starts hStarts]
      · exact .of_eq (value_of_not_starts hStarts strict depth)
          (value_of_not_starts hStartsOther strict depth)
          (.unexpectedInLiteral hTwin valueStarts)

------------------------------------------------------------
-- Connectives And Ends
------------------------------------------------------------

section Connectives

variable {α : Type}
variable {part : Part} [Part.Within .inner part]
variable {next follow : Parse α}
variable [Forward next] [Forward follow]
variable
  (hTwin : fork.Twin place other)
  (hBeyond :
    ∀ {cursor : Cursor}, cursor.Closed →
      cursor.current.kind.startsOperand = true →
        next.Beyond cursor cursor.next)
  (hBeyondOther :
    ∀ {cursor : Cursor}, cursor.Closed →
      cursor.current.kind.startsOperand = true →
        follow.Beyond cursor cursor.next)
  (hNext :
    ∀ {here there : Cursor}, here.fuel ≤ place.fuel →
      fork.Twin here there →
        fork.Relates part next follow here there)

include hTwin hBeyond hBeyondOther hNext

omit [Forward follow] [Part.Within .inner part] in
/- Both runs take the same connective or none. -/
theorem afterConnective
    (word : Text)
    (hOverlooks :
      place.next.rest = fork.first →
        Production.isConnective word place.current
            fork.other.kind = true →
          Overlooks fork.front fork.other.kind) :
    fork.Relates part
      (Production.afterConnective word next)
      (Production.afterConnective word follow) place other := by
  refine .lookahead hTwin (fun token following hAhead => ?_)
    (fun cursor => Production.beyond_connective hBeyond)
    (fun cursor hClosed hKind => hBeyond hClosed (hKind ▸ rfl))
    (fun cursor hClosed hKind => hBeyondOther hClosed (hKind ▸ rfl))
    hOverlooks (fun _ hAhead => ?_) (hNext (Nat.le_refl _) hTwin)
  · refine (Production.name_of_isConnective hAhead).imp_right
      fun hStarts hEnd => ?_
    rw [hEnd] at hStarts
    cases hStarts
  · have hName := (Production.name_of_isConnective hAhead).1
    exact .advance hTwin (by simp [hName])
      fun hAfter => hNext place.fuel_next_le hAfter

omit [Forward follow] in
/- A connective stands right after the token that closes a guard. -/
theorem afterThen
    (hPrevious : place.previous.kind = .rightParen) :
    fork.Relates part (Production.afterThen next)
      (Production.afterThen follow) place other := by
  refine .test hTwin (by simp) (fun _ => hNext place.fuel_next_le)
    fun hSeeking => ?_
  refine afterConnective hSeeking hBeyond hBeyondOther hNext "then"
    fun hFork hWord => ?_
  have hName : place.current.kind = .identifier :=
    (Production.name_of_isConnective hWord).1
  rw [Cursor.next_seeking] at hFork
  rcases hTwin.front_pair (by simp [hName]) hFork
      (by simp [hName, hPrevious]) with
    ⟨before, hFront⟩
  rw [hFront]
  exact .consequence hPrevious hWord

end Connectives

/-
  A whole script ends at the end of its tokens. Where the
  first run does so at the fork, nothing is said.
-/
theorem finish
    {α : Type}
    {next first second : Parse α}
    {follow : Parse α}
    [Forward first]
    (hTwin : fork.Twin place other)
    (hEnds : ∀ cursor, ∃ result, next cursor = .ok result cursor)
    (hOther :
      fork.Relates .whole first second
        (place.seeking [.endOfInput])
        (other.seeking [.endOfInput])) :
    fork.Relates .whole
      (check .endOfInput >>= fun here =>
        if here then next else first)
      (check .endOfInput >>= fun here =>
        if here then follow else second) place other := by
  have hHere :=
    check_bind_apply .endOfInput
      (fun here => if here then next else first) place
  have hThere :=
    check_bind_apply .endOfInput
      (fun here => if here then follow else second) other
  by_cases hPlace : place.current.kind = .endOfInput
  · rw [decide_eq_true hPlace, if_pos rfl] at hHere
    rcases hEnds (place.seeking [.endOfInput]) with
      ⟨result, hResult⟩
    have hAhead := hTwin.closed.kind_eq_iff.mp hPlace
    have hFork : place.rest = fork.first := by
      rcases hTwin.fork_or_before with
        hFork | ⟨-, -, before, hBefore, -⟩
      · exact hFork.1
      · rw [hAhead] at hBefore
        simp [Fork.first] at hBefore
    rw [Relates, hHere, hResult]
    exact .inr (.inr (.inl ⟨rfl, hFork⟩))
  · rw [decide_eq_false hPlace, if_neg Bool.false_ne_true] at hHere
    by_cases hEnd : other.current.kind = .endOfInput
    · have hFork : place.rest = fork.first :=
        Classical.byContradiction fun hBefore =>
          hPlace (hTwin.current_eq hBefore ▸ hEnd)
      rcases hTwin.current_fork hFork with ⟨hFound, hFoundOther⟩
      rw [hFoundOther] at hEnd
      refine (alone_of_seeking hTwin hFork (fun hSame => ?_)
        (List.mem_singleton.mpr hEnd) hOther).relates hHere
      rw [hFound, hSame] at hPlace
      exact hPlace hEnd
    · rw [decide_eq_false hEnd, if_neg Bool.false_ne_true] at hThere
      exact seeking hTwin hHere hThere hOther

end Relates

------------------------------------------------------------
-- Productions
------------------------------------------------------------

/-
  Statements of two runs may end before a closing token, where
  what is done with them is done alike.
-/
def Closes
    {α : Type}
    (fork : Fork)
    (part : Part)
    (close : TokenKind)
    (next : List (Node Span) → Parse α) : Prop :=
  ∀ {nodes : List (Node Span)} {place other : Cursor}
    {more moreOther : Parse α},
    Forward more →
      fork.Twin place other →
        fork.Relates part more moreOther (place.seeking [close])
            (other.seeking [close]) →
          fork.Relates part
            (check close >>= fun here =>
              if here then next nodes else more)
            (check close >>= fun here =>
              if here then next nodes else moreOther)
            place other

section Parts

-- The longest productions have more parts than inference takes
-- together by default.
set_option synthInstance.maxSize 512

variable {depth : Nat}
variable
  (hBody :
    ∀ (power : Nat) {place other : Cursor},
      fork.Twin place other →
        fork.Relates .inner (expression strict depth power)
          (expression strict depth power) place other)

include hBody

/- A statement begins the script, or after a token that may end one. -/
theorem relates_statement
    (hTwin : fork.Twin place other)
    (hBegins :
      place.previous.kind.beginsStatement = true ∨
        place.rest = fork.front ++ fork.first) :
    fork.Relates .inner
      (Production.statement (expression strict depth))
      (Production.statement (expression strict depth))
      place other := by
  rw [Production.statement_eq]
  have hExpression :
      ∀ cursor : Cursor, cursor.Closed →
        cursor.current.kind = .identifier →
          (expression strict depth 0).Beyond cursor cursor.next :=
    fun cursor hClosed hKind =>
      beyond_expression hClosed (hKind ▸ rfl) _ _ _
  refine .lookahead hTwin
    (fun _ _ => Production.name_of_isAssigned)
    (fun cursor hClosed _ =>
      (beyond_advance hClosed.next).of_eq
        (advance_bind_apply cursor _))
    hExpression hExpression (fun hNext hSign => ?_)
    (fun _ hAhead => ?_) (hBody 0 hTwin)
  · have hName : place.current.kind = .identifier :=
      (Production.name_of_isAssigned hSign).1
    have hKind : place.current.kind ≠ .endOfInput := by simp [hName]
    rcases hBegins with hPrevious | hStart
    · rcases hTwin.front_last hKind hNext _ hPrevious with
        ⟨before, hFront, hBefore⟩
      rw [hFront]
      exact .assignment hBefore hSign
    · have hRest := hTwin.closed.rest_eq hKind
      rw [hStart, hNext, ← List.singleton_append] at hRest
      rw [List.append_cancel_right hRest]
      change Overlooks ([] ++ [place.current]) fork.other.kind
      exact .assignment (by simp) hSign
  · rcases Production.name_of_isAssigned hAhead with ⟨hName, hSign⟩
    have hKind : place.current.kind ≠ .endOfInput := by simp [hName]
    have hFollowing := hTwin.closed.current_next hKind
    exact .advance hTwin hKind fun hNamed =>
      .advance hNamed (hFollowing.symm ▸ hSign) fun hNext =>
        .bind hNext (hBody 0 hNext) fun _ _ _ _ hEnd =>
          .spanned hEnd _ _

theorem relates_statements
    {α : Type}
    {part : Part}
    [Part.Within .inner part]
    {close : TokenKind}
    {fuel fuelOther : Nat}
    {next : List (Node Span) → Parse α}
    [∀ nodes, Forward (next nodes)]
    (hCloses : Closes fork part close next)
    (hTwin : fork.Twin place other)
    (hBegins :
      place.previous.kind.beginsStatement = true ∨
        place.rest = fork.front ++ fork.first)
    (hFueled : Fueled fuel fuelOther place other) :
    fork.Relates part
      (Production.statements (expression strict depth) close fuel
        >>= next)
      (Production.statements (expression strict depth) close
        fuelOther >>= next) place other := by
  induction fuel generalizing fuelOther place other next with
  | zero => exact absurd hFueled.place (Nat.not_le.mpr place.fuel_pos)
  | succ fuel ih =>
      rcases hFueled.exists_succ with ⟨_, fuelOther, _, rfl⟩
      rw [Production.statements_bind, Production.statements_bind]
      have hStatement := hTwin.seeking [close]
      refine hCloses inferInstance hTwin ?_
      refine .bind hStatement
        (relates_statement hBody hStatement hBegins)
        fun first after stop hOk hAfter => ?_
      have hFirst :=
        Production.fuel_lt_of_statement hStatement.closed hOk
      rw [Cursor.fuel_seeking] at hFirst
      have hMore :
          Closes fork part close fun rest => next (first :: rest) :=
        fun hForward => hCloses hForward
      have hSemicolon := after.fuel_next_le
      refine .test hAfter (by simp) (fun hKind hNext => ?_)
        fun hEnd => ?_
      · have hPrevious :=
          hAfter.closed.previous_next (by simp [hKind])
        exact ih hMore hNext (.inl (by rw [hPrevious, hKind]; rfl))
          (hTwin.less hFueled hNext (by omega))
      · have hLast := hEnd.seeking [close]
        refine hCloses inferInstance hEnd (.get ?_)
        rw [hLast.previous]
        split
        · rename_i hBrace
          exact ih hMore hLast (.inl (by rw [hBrace]; rfl))
            (hTwin.less hFueled hLast hFirst)
        · exact .unexpected hLast

theorem relates_block
    (hTwin : fork.Twin place other)
    (hKind : place.current.kind = .leftBrace) :
    fork.Relates .inner
      (Production.block (expression strict depth))
      (Production.block (expression strict depth))
      place other := by
  have hEnd : place.current.kind ≠ .endOfInput := by simp [hKind]
  have hPrevious := hTwin.closed.previous_next hEnd
  refine .advance hTwin hEnd fun hNext =>
    .get (relates_statements hBody ?_ hNext
      (.inl (by rw [hPrevious, hKind]; rfl)) (.refl _ _))
  intro nodes here there more moreOther hForward hHere hMore
  rw [check_expect_bind, check_expect_bind]
  exact .test hHere (by simp) (fun _ hEnd => .spanned hEnd _ _)
    fun _ => hMore

theorem relates_commaSeparated
    {fuel fuelOther : Nat}
    (hTwin : fork.Twin place other)
    (hFueled : Fueled fuel fuelOther place other) :
    fork.Relates .inner
      (Production.commaSeparated (expression strict depth) fuel)
      (Production.commaSeparated (expression strict depth)
        fuelOther) place other := by
  induction fuel generalizing fuelOther place other with
  | zero => exact absurd hFueled.place (Nat.not_le.mpr place.fuel_pos)
  | succ fuel ih =>
      rcases hFueled.exists_succ with ⟨_, fuelOther, _, rfl⟩
      rw [Production.commaSeparated_succ,
        Production.commaSeparated_succ]
      refine .bind hTwin (hBody 0 hTwin)
        fun first after stop hOk hAfter => ?_
      refine .test hAfter (by simp) (fun hComma hNext => ?_)
        fun hEnd => .pure hEnd _
      have hFirst := (Forward.beyond _ hTwin.closed).fuel_le hOk
      have hLast := hAfter.closed.fuel_next_lt (by simp [hComma])
      exact .bind hNext
        (ih hNext (hTwin.less hFueled hNext (by omega)))
        fun _ _ _ _ hEnd => .pure hEnd _

theorem relates_array
    (hTwin : fork.Twin place other)
    (hKind : place.current.kind = .leftBracket) :
    fork.Relates .inner
      (Production.array (expression strict depth))
      (Production.array (expression strict depth))
      place other := by
  rw [Production.array_eq]
  refine .advance hTwin (by simp [hKind]) fun hNext => ?_
  refine .test hNext (by simp) (fun _ hEnd => .spanned hEnd _ _)
    fun hItems => .get ?_
  refine .bind hItems
    (relates_commaSeparated hBody hItems (.refl _ _))
    fun _ _ _ _ hAfter => ?_
  exact .expected hAfter (by simp) fun _ hEnd => .spanned hEnd _ _

theorem relates_namedArguments
    {fuel fuelOther : Nat}
    (hTwin : fork.Twin place other)
    (hFueled : Fueled fuel fuelOther place other)
    (earlier : Fields (Node Span)) :
    fork.Relates .inner
      (Production.namedArguments (expression strict depth) fuel
        earlier)
      (Production.namedArguments (expression strict depth)
        fuelOther earlier) place other := by
  induction fuel generalizing fuelOther place other earlier with
  | zero => exact absurd hFueled.place (Nat.not_le.mpr place.fuel_pos)
  | succ fuel ih =>
      rcases hFueled.exists_succ with ⟨_, fuelOther, _, rfl⟩
      rw [Production.namedArguments_succ,
        Production.namedArguments_succ]
      refine .expected hTwin (by simp) fun _ hNamed =>
        .either hNamed (by simp) (by simp) fun hSign hNext => ?_
      refine .bind hNext (hBody 0 hNext)
        fun value after stop hOk hAfter => ?_
      refine .test hAfter (by simp) (fun hComma hRest => ?_)
        fun hEnd => .pure hEnd _
      have hName := place.fuel_next_le
      have hValue := (Forward.beyond _ hNext.closed).fuel_le hOk
      have hLast := after.fuel_next_le
      exact ih hRest (hTwin.less hFueled hRest (by omega)) _

theorem relates_call
    (hTwin : fork.Twin place other)
    (hKind : place.current.kind = .leftParen)
    (name : Text)
    (start : Span) :
    fork.Relates .inner
      (Production.call (expression strict depth) name start)
      (Production.call (expression strict depth) name start)
      place other := by
  have hEnd : place.current.kind ≠ .endOfInput := by simp [hKind]
  have hPrevious := hTwin.closed.previous_next hEnd
  have hPositional :
      ∀ cursor : Cursor, cursor.Closed →
        cursor.current.kind = .identifier →
          (do
            let arguments ←
              Production.commaSeparated (expression strict depth)
                (← get).fuel
            test .rightParen
              (fun _ => do
                return Node.call name arguments (← spanFrom start))
              Parse.unexpected).Beyond cursor cursor.next :=
    fun cursor hClosed hName =>
      ((Production.beyond_commaSeparated hClosed (hName ▸ rfl) _ _
        _).bind hClosed.next).of_eq (get_bind_apply cursor _)
  rw [Production.call_eq]
  refine .advance hTwin hEnd fun hNext => ?_
  refine .test hNext (by simp) (fun _ hEnd => .spanned hEnd _ _)
    fun hArguments => ?_
  refine .lookahead hArguments
    (fun _ _ => Production.name_of_isNamed)
    (fun cursor hClosed hAhead =>
      ((Production.beyond_namedArguments _ hClosed hAhead _ _).bind
        hClosed.next.next).of_eq (get_bind_apply cursor _))
    hPositional hPositional (fun hFork hSign => ?_)
    (fun _ _ => .get ?_) (.get ?_)
  · have hName : place.next.current.kind = .identifier :=
      (Production.name_of_isNamed hSign).1
    rw [Cursor.next_seeking] at hFork
    rcases hNext.front_pair (by simp [hName]) hFork
        (by simp [hName, hPrevious, hKind]) with
      ⟨before, hFront⟩
    rw [hFront]
    exact .argument (hPrevious ▸ hKind) hSign
  · refine .bind hArguments
      (relates_namedArguments hBody hArguments (.refl _ _) [])
      fun _ _ _ _ hAfter => ?_
    exact .expected hAfter (by simp) fun _ hEnd => .spanned hEnd _ _
  · refine .bind hArguments
      (relates_commaSeparated hBody hArguments (.refl _ _))
      fun _ _ _ _ hAfter => ?_
    exact .expected hAfter (by simp) fun _ hEnd => .spanned hEnd _ _

theorem relates_cases
    {fuel fuelOther : Nat}
    {next : List (Case Span) → Parse (Node Span)}
    [∀ inner, Forward (next inner)]
    (hTwin : fork.Twin place other)
    (hPrevious : place.previous.kind.beginsCase = true)
    (hFueled : Fueled fuel fuelOther place other)
    (hNext :
      ∀ {inner : List (Case Span)} {here there : Cursor},
        fork.Twin here there →
          fork.Relates .inner (next inner) (next inner) here
            there) :
    fork.Relates .inner
      (do
        let inner ←
          Production.cases (expression strict depth) fuel
        let _ ← advance
        next inner)
      (do
        let inner ←
          Production.cases (expression strict depth) fuelOther
        let _ ← advance
        next inner) place other := by
  induction fuel generalizing fuelOther place other next with
  | zero => exact absurd hFueled.place (Nat.not_le.mpr place.fuel_pos)
  | succ fuel ih =>
      rcases hFueled.exists_succ with ⟨_, fuelOther, _, rfl⟩
      rw [Production.cases_bind, Production.cases_bind,
        check_advance_bind, check_advance_bind]
      refine .test hTwin (by simp) (fun _ hEnd => hNext hEnd)
        fun hMore => ?_
      refine .afterConnective hMore
        (fun hClosed hStarts =>
          (beyond_expression hClosed hStarts _ _ _).bind
            hClosed.next)
        (fun hClosed hStarts =>
          (beyond_expression hClosed hStarts _ _ _).bind
            hClosed.next)
        (fun hHere hGuardTwin => ?_) "case" fun hFork hWord => ?_
      · refine .bind hGuardTwin (hBody 0 hGuardTwin)
          fun guard middle _ hGuardOk hMiddle => ?_
        refine .either hMiddle (by simp) (by simp)
          fun hSign hResultTwin => ?_
        refine .bind hResultTwin (hBody 0 hResultTwin)
          fun result after _ hResultOk hAfter => ?_
        have hGuard :=
          (Forward.beyond _ hGuardTwin.closed).fuel_le hGuardOk
        have hResult :=
          (Forward.beyond _ hResultTwin.closed).fuel_le hResultOk
        have hSemicolon := after.fuel_next_le
        have hEnds :=
          (completes_expression strict depth 0 _
            hResultTwin.closed).of_ok hResultOk
        rw [Cursor.fuel_seeking] at hHere
        refine .optional hAfter (by simp) (fun hKind hRest => ?_)
          fun hRest => ?_
        · have hLast :=
            hAfter.closed.previous_next (by simp [hKind])
          exact ih hRest (by rw [hLast, hKind]; rfl)
            (hTwin.less hFueled hRest (by omega)) hNext
        · exact ih hRest (by simp [TokenKind.beginsCase, hEnds])
            (hTwin.less hFueled hRest (by
              rw [Cursor.fuel_seeking]
              omega)) hNext
      · have hName : place.current.kind = .identifier :=
          (Production.name_of_isConnective hWord).1
        rw [Cursor.next_seeking] at hFork
        rcases hTwin.front_last (by simp [hName]) hFork _
            hPrevious with
          ⟨before, hFront, hBefore⟩
        rw [hFront]
        exact .case hBefore hWord

theorem relates_switch
    (hTwin : fork.Twin place other)
    (hKind : place.current.kind = .switchWord) :
    fork.Relates .inner
      (Production.switch (expression strict depth))
      (Production.switch (expression strict depth))
      place other := by
  rw [Production.switch_eq]
  refine .advance hTwin (by simp [hKind]) fun hWord =>
    .expected hWord (by simp) fun hBrace hNext => .get ?_
  have hPrevious :=
    hWord.closed.previous_next (by simp [hBrace])
  exact relates_cases hBody hNext (by rw [hPrevious, hBrace]; rfl)
    (.refl _ _) fun hEnd => .spanned hEnd _ _

theorem relates_branches
    {fuel fuelOther : Nat}
    (hTwin : fork.Twin place other)
    (hFueled : Fueled fuel fuelOther place other) :
    fork.Relates .inner
      (Production.branches (expression strict depth) fuel)
      (Production.branches (expression strict depth) fuelOther)
      place other := by
  induction fuel generalizing fuelOther place other with
  | zero => exact absurd hFueled.place (Nat.not_le.mpr place.fuel_pos)
  | succ fuel ih =>
      rcases hFueled.exists_succ with ⟨_, fuelOther, _, rfl⟩
      rw [Production.branches_succ, Production.branches_succ]
      refine .expected hTwin (by simp) fun hParen hInside => ?_
      refine .bind hInside (hBody 0 hInside)
        fun guard middle _ hGuardOk hMiddle => ?_
      refine .expected hMiddle (by simp) fun hClosing hThen => ?_
      have hPrevious :=
        hMiddle.closed.previous_next (by simp [hClosing])
      refine .afterThen hThen
        (fun hClosed hStarts =>
          (beyond_expression hClosed hStarts _ _ _).bind
            hClosed.next)
        (fun hClosed hStarts =>
          (beyond_expression hClosed hStarts _ _ _).bind
            hClosed.next)
        (fun hHere hResultTwin => ?_) (hPrevious ▸ hClosing)
      refine .bind hResultTwin (hBody 0 hResultTwin)
        fun result after _ hResultOk hAfter => ?_
      refine .test hAfter (by simp) (fun _ hElse => ?_)
        fun hEnd => .pure hEnd _
      refine .test hElse (by simp) (fun _ hIf => ?_)
        fun hLast => ?_
      · have hFirst :=
          (Forward.beyond _ hInside.closed).fuel_le hGuardOk
        have hSecond :=
          (Forward.beyond _ hResultTwin.closed).fuel_le hResultOk
        have hTaken :=
          hTwin.closed.fuel_next_lt (by simp [hParen])
        have hMiddleNext := middle.fuel_next_le
        have hAfterNext := after.fuel_next_le
        have hElseNext := after.next.fuel_next_le
        exact .bind hIf
          (ih hIf (hTwin.less hFueled hIf (by omega)))
          fun _ _ _ _ hEnd => .pure hEnd _
      · exact .bind hLast (hBody 0 hLast)
          fun _ _ _ _ hEnd => .pure hEnd _

theorem relates_index
    (hTwin : fork.Twin place other)
    (hKind : place.current.kind = .leftBracket)
    (base : Node Span) :
    fork.Relates .inner
      (Production.index (expression strict depth) base)
      (Production.index (expression strict depth) base)
      place other := by
  unfold Production.index
  simp only [Parse.expect_bind]
  exact .advance hTwin (by simp [hKind]) fun hNext =>
    .bind hNext (hBody 0 hNext) fun _ _ _ _ hAfter =>
      .expected hAfter (by simp) fun _ hEnd => .spanned hEnd _ _

omit hBody in
/- The constant after a sign is part of the script. -/
theorem relates_embedded
    (hTwin : fork.Twin place other)
    (hKind : place.current.kind = .at)
    (hBefore : place.rest ≠ fork.first) :
    fork.Relates .inner (Production.embedded strict)
      (Production.embedded strict) place other := by
  have hEnd : place.current.kind ≠ .endOfInput := by simp [hKind]
  have hNext := hTwin.next hBefore hEnd
  have hPrevious : place.next.previous.kind.endsOperand = false := by
    rw [hTwin.closed.previous_next hEnd, hKind]
    rfl
  refine .taking (advance_bind_apply place _) ?_ (.inr rfl)
    hTwin.closed hEnd
    (.bind hNext (.value hNext hPrevious Embedded.maxDepth)
      fun _ _ _ _ hAfter =>
        .spanned hAfter place.current.span
          (Node.literal _ true))
  rw [Production.embedded, advance_bind_apply,
    hTwin.current_eq hBefore]
  rfl

------------------------------------------------------------
-- Expressions
------------------------------------------------------------

theorem relates_operand
    (hTwin : fork.Twin place other) :
    fork.Relates .inner
      (Production.operand strict (expression strict depth))
      (Production.operand strict (expression strict depth))
      place other := by
  refine .decide (fun kind => kind.startsOperand = true)
    hTwin (by decide)
    (fun hStarts =>
      Production.beyond_operand _ hTwin.closed hStarts _)
    (fun hStarts hBefore => ?_)
    (fun hStarts hFork hDiffer hKind => ?_)
    fun hStarts hStartsOther => ?_
  · have hKind : place.current.kind ≠ .endOfInput := by
      intro hEnd
      rw [hEnd] at hStarts
      cases hStarts
    have hConstant (value : Value) :
        fork.Relates .inner (Production.constant value)
          (Production.constant value) place other :=
      .advance hTwin hKind fun hNext => .pure hNext _
    have hUnary (op : UnaryOp) :
        fork.Relates .inner
          (Production.unary (expression strict depth) op)
          (Production.unary (expression strict depth) op)
          place other :=
      .advance hTwin hKind fun hNext =>
        .bind hNext (hBody unaryPower hNext) fun _ _ _ _ hAfter =>
          .spanned hAfter _ _
    refine .of_eq (current_bind_apply place _)
      (current_bind_apply other _) ?_
    rw [hTwin.current_eq hBefore]
    split
    · exact hUnary _
    · exact hUnary _
    · exact hConstant _
    · exact hConstant _
    · exact hConstant _
    · exact hConstant _
    · exact hConstant _
    · exact .advance hTwin hKind fun hNext => .pure hNext _
    · unfold Production.parenthesised
      simp only [Parse.expect_bind]
      exact .advance hTwin hKind fun hNext =>
        .bind hNext (hBody 0 hNext) fun _ _ _ _ hAfter =>
          .expected hAfter (by simp) fun _ hEnd => .pure hEnd _
    · exact relates_array hBody hTwin ‹_›
    · exact relates_block hBody hTwin ‹_›
    · exact relates_embedded hTwin ‹_› hBefore
    · exact relates_switch hBody hTwin ‹_›
    · exact .advance hTwin hKind fun hNext => .get <|
        .bind hNext (relates_branches hBody hNext (.refl _ _))
          fun _ _ _ _ hEnd => .spanned hEnd _ _
    · exact .advance hTwin hKind fun hNext =>
        .bind hNext (hBody 0 hNext) fun _ _ _ _ hAfter =>
          .spanned hAfter _ _
    · exact .seeking hTwin (seek_bind_apply place _ _)
        (seek_bind_apply other _ _)
        (.unexpected (hTwin.seeking _))
  · rw [Bool.not_eq_true] at hStarts
    have hFound :=
      Production.operand_of_not_startsOperand
        (expression strict depth) hStarts strict
    have hSought :
        fork.other.kind ∈ TokenKind.operandStarts := by
      simpa [TokenKind.startsOperand] using hKind
    have hAlone :
        fork.Alone .inner (unexpected : Parse (Node Span))
          (place.seeking TokenKind.operandStarts) :=
      Relates.alone_of_seeking hTwin hFork hDiffer hSought
        (.unexpected (hTwin.seeking _))
    unfold Alone at hAlone ⊢
    rwa [hFound]
  · rw [Bool.not_eq_true] at hStarts hStartsOther
    exact .seeking hTwin
      (Production.operand_of_not_startsOperand _ hStarts strict)
      (Production.operand_of_not_startsOperand _ hStartsOther strict)
      (.unexpected (hTwin.seeking _))

/-
  Before the fork both runs see the same token, and if it
  continues a chain both take it.
-/
theorem relates_operators_before
    {power fuel fuelOther : Nat}
    (chain : Chain)
    (hTwin : fork.Twin place other)
    (hBefore : place.rest ≠ fork.first)
    (hContinues :
      ¬ Production.Stops power chain.node place.current.kind)
    (hMore :
      ∀ {here there : Cursor} (more : Chain),
        fork.Twin here there →
          here.fuel ≤ place.next.fuel →
            place.current.kind ≠ .endOfInput →
              fork.Relates .inner
                (Production.operators (expression strict depth) power
                  fuel more)
                (Production.operators (expression strict depth) power
                  fuelOther more) here there) :
    fork.Relates .inner
      (Production.operators (expression strict depth) power
        (fuel + 1) chain)
      (Production.operators (expression strict depth) power
        (fuelOther + 1) chain) place other := by
  have hSame := hTwin.current_eq hBefore
  have hSeeking :=
    hTwin.seeking (Production.continuations chain.node)
  rcases Production.continues_or_stops power chain.node
      place.current.kind with
    ⟨hIndex, hBound⟩ | ⟨hParen, hBound, name, span, hName⟩ |
      ⟨found, hLevel, hPower⟩ | hStops
  · refine .seeking hTwin
      (Production.operators_of_index hIndex hBound fuel)
      (Production.operators_of_index (hSame.symm ▸ hIndex) hBound
        fuelOther) ?_
    refine .bind hSeeking (relates_index hBody hSeeking hIndex _)
      fun node after stop hOk hAfter => ?_
    refine hMore ⟨node, none⟩ hAfter ?_ (by simp [hIndex])
    rw [← Cursor.next_seeking place]
    exact
      (Production.beyond_index _ hSeeking.closed _).fuel_le hOk
  · refine .seeking hTwin
      (Production.operators_of_call hParen hBound hName fuel)
      (Production.operators_of_call (hSame.symm ▸ hParen) hBound
        hName fuelOther) ?_
    refine .bind hSeeking
      (relates_call hBody hSeeking hParen name span)
      fun node after stop hOk hAfter => ?_
    refine hMore ⟨node, none⟩ hAfter ?_ (by simp [hParen])
    rw [← Cursor.next_seeking place]
    exact
      (Production.beyond_call _ hSeeking.closed _ _).fuel_le
        hOk
  · have hKind : place.current.kind ≠ .endOfInput := by
      intro hEnd
      rw [hEnd] at hLevel
      cases hLevel
    have hNext := hTwin.next hBefore hKind
    refine .taking
      (Production.operators_of_level hLevel hPower fuel) ?_
      (.inl rfl) hTwin.closed hKind
      (.bind hNext (hBody (2 * found) hNext)
        fun right after stop hOk hAfter =>
          hMore (chain.combine place.current.kind right) hAfter
            ((Forward.beyond _ hNext.closed).fuel_le hOk)
            hKind)
    rw [Production.operators_of_level (hSame.symm ▸ hLevel)
      hPower fuelOther, hSame]
  · exact absurd hStops hContinues

theorem relates_operators
    {power fuel fuelOther : Nat}
    (chain : Chain)
    (hTwin : fork.Twin place other)
    (hFueled : Fueled fuel fuelOther place other) :
    fork.Relates .inner
      (Production.operators (expression strict depth) power fuel
        chain)
      (Production.operators (expression strict depth) power
        fuelOther chain) place other := by
  induction fuel generalizing fuelOther place other chain with
  | zero => exact absurd hFueled.place (Nat.not_le.mpr place.fuel_pos)
  | succ fuel ih =>
      rcases hFueled.exists_succ with ⟨_, fuelOther, _, rfl⟩
      have hSeeking :=
        hTwin.seeking (Production.continuations chain.node)
      refine .decide
        (fun kind => ¬ Production.Stops power chain.node kind) hTwin
        (not_not_intro
          ⟨nofun, nofun, by simp [TokenKind.level?]⟩)
        (fun hContinues => Production.beyond_operators _
          hTwin.closed hContinues fuel)
        (fun hContinues hBefore => ?_)
        (fun hStops hFork hDiffer hContinues => ?_)
        fun hStops hStopsOther => ?_
      · exact relates_operators_before hBody chain hTwin hBefore
          hContinues fun more hHere hLess hKind =>
            ih more hHere
              (hTwin.less hFueled hHere
                (Nat.lt_of_le_of_lt hLess
                  (hTwin.closed.fuel_next_lt hKind)))
      · rw [Classical.not_not] at hStops
        have hSought :
            fork.other.kind ∈ Production.continuations chain.node :=
          Classical.byContradiction fun hNone =>
            hContinues (.of_not_mem hNone)
        have hAlone :
            fork.Alone .inner (pure chain.node)
              (place.seeking
                (Production.continuations chain.node)) :=
          Relates.alone_of_seeking hTwin hFork hDiffer hSought
            (.pure hSeeking chain.node)
        unfold Alone at hAlone ⊢
        rwa [Production.operators_of_stops hStops fuel]
      · rw [Classical.not_not] at hStops hStopsOther
        exact .seeking hTwin
          (Production.operators_of_stops hStops fuel)
          (Production.operators_of_stops hStopsOther fuelOther)
          (.pure hSeeking chain.node)

end Parts

theorem relates_expression
    (depth power : Nat)
    {place other : Cursor}
    (hTwin : fork.Twin place other) :
    fork.Relates .inner (expression strict depth power)
      (expression strict depth power) place other := by
  induction depth generalizing power place other with
  | zero => exact .tooDeep rfl
  | succ depth ih =>
      exact .bind hTwin (relates_operand ih hTwin)
        fun first _ _ _ hAfter =>
          .get (relates_operators ih ⟨first, none⟩ hAfter (.refl _ _))

theorem relates_script
    (hTwin : fork.Twin place other)
    (hStart : place.rest = fork.front ++ fork.first) :
    fork.Relates .whole (script strict) (script strict) place
      other := by
  refine .get (relates_statements
    (relates_expression maxDepth) ?_ hTwin (.inr hStart) (.refl _ _))
  intro nodes here there more moreOther hForward hHere hMore
  exact .finish hHere (fun cursor => ⟨_, rfl⟩) hMore

end Fork

end ExperimentScript
