import ExperimentScript.Proofs.Parser.Pairing
import ExperimentScript.Proofs.Script.SameBut

/-
  Two runs of reading a script.

  The rules for pairs of steps are put together along the
  productions: what is assumed of strings and of embedded
  constants carries over to expressions of every depth and to
  whole scripts. The trees that both runs build are the same
  but for the values of embedded constants.

  Key definitions include:
    * `ExperimentScript.Pairing.Abreast`

  Main declarations:
    * `ExperimentScript.Pairing.Abreast.relates_expression`
    * `ExperimentScript.Pairing.Abreast.relates_script`
-/

namespace ExperimentScript

namespace Pairing

------------------------------------------------------------
-- Beginnings And Fuel
------------------------------------------------------------

/- Without a fork two runs begin at the same place. -/
theorem Twin.start
    {pairing : Pairing}
    {tokens : List Token}
    (hTokens : AreClosed tokens)
    (hSource : pairing.source = tokens)
    (hNone : pairing.first = []) :
    pairing.Twin 0 (Cursor.start tokens) (Cursor.start tokens) where
  previous := rfl
  sought := rfl
  within :=
    hSource.symm ▸ hTokens.rest_start ▸ List.suffix_refl _
  level := by
    refine ⟨tokens, ?_, ?_⟩
    · rw [hTokens.rest_start, hNone, List.append_nil]
    · rw [hTokens.rest_start, pairing.empty_iff.mp hNone,
        List.append_nil]
  free hFork :=
    absurd (hFork.trans hNone) (Cursor.rest_ne_nil _)
  closed := hTokens.closed_start
  closedOther := hTokens.closed_start

/- There is fuel for all tokens that are left. -/
structure Fueled
    (fuel fuelOther : Nat)
    (place other : Cursor) : Prop where
  place : place.fuel ≤ fuel
  other : other.fuel ≤ fuelOther

namespace Fueled

variable {place other : Cursor}

theorem refl (place other : Cursor) :
    Fueled place.fuel other.fuel place other :=
  ⟨Nat.le_refl _, Nat.le_refl _⟩

/- Some token is left always. -/
theorem exists_succ
    {fuel fuelOther : Nat}
    (hFueled : Fueled fuel fuelOther place other) :
    ∃ less lessOther,
      fuel = less + 1 ∧ fuelOther = lessOther + 1 := by
  have hPlace := place.fuel_pos
  have hOther := other.fuel_pos
  have hFuel := hFueled.place
  have hFuelOther := hFueled.other
  exact ⟨fuel - 1, fuelOther - 1, by omega, by omega⟩

/- Less fuel will do where the first run has taken a token. -/
theorem less
    {pairing : Pairing}
    {fuel fuelOther start power : Nat}
    {after stop : Cursor}
    (hFueled : Fueled (fuel + 1) (fuelOther + 1) place other)
    (hTwin : pairing.Twin start place other)
    (hAfter : pairing.Twin power after stop)
    (hLess : after.fuel < place.fuel) :
    Fueled fuel fuelOther after stop := by
  have hFuel := hFueled.place
  have hFuelOther := hFueled.other
  have hStart := hTwin.fuel_eq
  have hStop := hAfter.fuel_eq
  exact ⟨by omega, by omega⟩

end Fueled

------------------------------------------------------------
-- Embedded Constants
------------------------------------------------------------

namespace Relates

open Parse Embedded

variable {pairing : Pairing}
variable {place other : Cursor}

section Parts

variable {differ : Text → Value → Prop}
variable {value valueOther : Parse Value}
variable [Forward value] [Forward valueOther]
variable
  (hValue :
    ∀ {place other : Cursor}, pairing.Twin 0 place other →
      pairing.Relates (.inside 0) (Value.SameBut differ) value
        valueOther place other)

include hValue

theorem items
    {fuel fuelOther : Nat}
    (hTwin : pairing.Twin 0 place other)
    (hFueled : Fueled fuel fuelOther place other) :
    pairing.Relates (.inside 0)
      (AllRelated (Value.SameBut differ))
      (Embedded.items value fuel)
      (Embedded.items valueOther fuelOther) place other := by
  induction fuel generalizing fuelOther place other with
  | zero => exact absurd hFueled.place (Nat.not_le.mpr place.fuel_pos)
  | succ fuel ih =>
      rcases hFueled.exists_succ with ⟨_, fuelOther, _, rfl⟩
      rw [items_succ, items_succ]
      refine .bind hTwin (hValue hTwin)
        fun item same after stop hOk _ hSame hAfter => ?_
      refine .oneOf hAfter (by decide) (by decide)
        fun hKind hNext => ?_
      split
      · rename_i hComma
        have hItem := (Forward.beyond _ hTwin.closed).fuel_le hOk
        have hLast := hAfter.closed.fuel_next_lt (hComma ▸ nofun)
        exact .bind hNext
          (ih hNext (hFueled.less hTwin hNext (by omega)))
          fun _ _ _ _ _ _ hRest hEnd =>
            .pure hEnd (.cons hSame hRest)
      · exact .pure hNext (.cons hSame .nil)

theorem list
    (hTwin : pairing.Twin 0 place other) :
    pairing.Relates (.inside 0) (Value.SameBut differ)
      (Embedded.list value) (Embedded.list valueOther) place other := by
  rw [list_eq, list_eq]
  refine .choice hTwin rfl (fun _ hNext => .pure hNext (.refl _))
    fun _ => .get ?_
  exact .bind hTwin (items hValue hTwin (.refl _ _))
    fun _ _ _ _ _ _ hItems hEnd => .pure hEnd (.list hItems)

theorem fields
    {fuel fuelOther : Nat}
    (hTwin : pairing.Twin 0 place other)
    (hFueled : Fueled fuel fuelOther place other)
    {earlier earlierOther : Fields Value}
    (hEarlier :
      Fields.Related (Value.SameBut differ) earlier
        earlierOther) :
    pairing.Relates (.inside 0)
      (Fields.Related (Value.SameBut differ))
      (Embedded.fields value fuel earlier)
      (Embedded.fields valueOther fuelOther earlierOther)
      place other := by
  induction fuel generalizing fuelOther place other earlier
      earlierOther with
  | zero => exact absurd hFueled.place (Nat.not_le.mpr place.fuel_pos)
  | succ fuel ih =>
      rcases hFueled.exists_succ with ⟨_, fuelOther, _, rfl⟩
      rw [fields_succ, fields_succ]
      refine .oneOf hTwin (by decide) (by decide)
        fun hName hNamed => ?_
      refine .oneOf hNamed (by decide) (by decide)
        fun hColon hAssigned => ?_
      refine .bind hAssigned (hValue hAssigned)
        fun item same after stop hOk _ hSame hAfter => ?_
      have hLater := hEarlier.set hSame place.current.text
      refine .oneOf hAfter (by decide) (by decide)
        fun hKind hNext => ?_
      split
      · rename_i hComma
        have hFirst := place.fuel_next_le
        have hSecond := place.next.fuel_next_le
        have hItem :=
          (Forward.beyond _ hAssigned.closed).fuel_le hOk
        have hLast := hAfter.closed.fuel_next_lt (hComma ▸ nofun)
        exact ih hNext (hFueled.less hTwin hNext (by omega)) hLater
      · exact .pure hNext hLater

theorem map
    (hTwin : pairing.Twin 0 place other) :
    pairing.Relates (.inside 0) (Value.SameBut differ)
      (Embedded.map value) (Embedded.map valueOther) place other := by
  rw [map_eq, map_eq]
  refine .choice hTwin rfl (fun _ hNext => .pure hNext (.refl _))
    fun _ => .get ?_
  exact .bind hTwin (fields hValue hTwin (.refl _ _) .nil)
    fun _ _ _ _ _ _ hFields hEnd => .pure hEnd (.map hFields)

end Parts

/-
  Where no string leads both runs apart, no embedded constant
  does, whatever its values are.
-/
theorem value
    {differ : Text → Value → Prop}
    {strict strictOther : Bool}
    (hStrings :
      ∀ (depth : Nat) {place other : Cursor},
        pairing.Twin 0 place other →
          place.current.kind = .string ∨
              other.current.kind = .string →
            pairing.Relates (.inside 0) (Value.SameBut differ)
              (Embedded.value strict (depth + 1))
              (Embedded.value strictOther (depth + 1))
              place other)
    (depth : Nat)
    (hTwin : pairing.Twin 0 place other) :
    pairing.Relates (.inside 0) (Value.SameBut differ)
      (Embedded.value strict depth)
      (Embedded.value strictOther depth) place other := by
  induction depth generalizing place other with
  | zero => exact .tooDeep rfl
  | succ depth ih =>
      by_cases hString :
        place.current.kind = .string ∨ other.current.kind = .string
      · exact hStrings depth hTwin hString
      rw [not_or] at hString
      refine .decide (· ∈ valueStarts) hTwin (by decide)
        (fun hStarts =>
          beyond_value hTwin.closed hStarts hString.1 _ _)
        (fun hStarts =>
          beyond_value hTwin.closedOther hStarts hString.2 _ _)
        (fun hStarts hBefore => ?_) fun hPlace hOther => ?_
      · have hKind : place.current.kind ≠ .endOfInput := by
          intro hEnd
          rw [hEnd] at hStarts
          revert hStarts
          decide
        refine .of_eq (current_bind_apply place _)
          (current_bind_apply other _) ?_
        rw [← hTwin.current_eq hBefore]
        split
        · exact .advance hTwin hKind fun _ hNext => .list ih hNext
        · exact .advance hTwin hKind fun _ hNext => .map ih hNext
        · exact .advance hTwin hKind fun _ hNext => .pure hNext (.refl _)
        · exact .advance hTwin hKind fun _ hNext => .pure hNext (.refl _)
        · exact absurd ‹_› hString.1
        · exact .advance hTwin hKind fun _ hNext => .pure hNext (.refl _)
        · exact .advance hTwin hKind fun _ hNext => .pure hNext (.refl _)
        · exact .advance hTwin hKind fun _ hNext => .pure hNext (.refl _)
        · exact .unexpectedInLiteral hTwin (by decide)
            fun hFork => absurd hFork hBefore
      · exact .of_eq (value_of_not_starts hPlace strict depth)
          (value_of_not_starts hOther strictOther depth)
          (.unexpectedInLiteral hTwin (by decide) fun _ => hOther)

------------------------------------------------------------
-- Connectives
------------------------------------------------------------

section Connectives

variable {α β : Type}
variable {scope : Scope}
variable {related : α → β → Prop}
variable {next : Parse α} {follow : Parse β}
variable [Forward next] [Forward follow]
variable
  (hTwin : pairing.Twin 0 place other)
  (hBeyond :
    ∀ {cursor : Cursor}, cursor.Closed →
      cursor.current.kind.startsOperand = true →
        next.Beyond cursor cursor.next)
  (hBeyondOther :
    ∀ {cursor : Cursor}, cursor.Closed →
      cursor.current.kind.startsOperand = true →
        follow.Beyond cursor cursor.next)
  (hNext :
    ∀ {here there : Cursor}, here.fuel ≤ place.fuel →
      pairing.Twin 0 here there →
        pairing.Relates scope related next follow here there)

include hTwin hBeyond hBeyondOther hNext

omit [Forward follow] in
/- Both runs take the same connective or none. -/
theorem afterConnective (word : Text) :
    pairing.Relates scope related
      (Production.afterConnective word next)
      (Production.afterConnective word follow) place other := by
  refine .lookahead hTwin (fun token following hAhead => ?_)
    (fun cursor => Production.beyond_connective hBeyond)
    (fun cursor => Production.beyond_connective hBeyondOther)
    (fun cursor hClosed hKind => hBeyond hClosed (hKind ▸ rfl))
    (fun _ hAhead => ?_) (hNext (Nat.le_refl _) hTwin)
  · refine (Production.name_of_isConnective hAhead).imp_right
      fun hStarts hEnd => ?_
    rw [hEnd] at hStarts
    cases hStarts
  · have hName := (Production.name_of_isConnective hAhead).1
    exact .advance hTwin (by rw [hName]; exact nofun)
      fun _ hAfter => hNext place.fuel_next_le hAfter

theorem afterThen :
    pairing.Relates scope related (Production.afterThen next)
      (Production.afterThen follow) place other :=
  .test hTwin nofun (fun _ => hNext place.fuel_next_le)
    fun hSeeking =>
      afterConnective hSeeking hBeyond hBeyondOther hNext "then"

end Connectives

end Relates

/-
  What is assumed of two runs, each in one mode of reading: an
  embedded constant does not lead them apart, and of the values
  that they make of it a given relation holds.
-/
structure Abreast
    (pairing : Pairing)
    (strict strictOther : Bool)
    (differ : Value → Value → Span → Prop) : Prop where
  embedded
    {place other : Cursor}
    (hTwin : pairing.Twin 0 place other)
    (hBefore : place.rest ≠ pairing.first)
    (hKind : place.current.kind = .at) :
    pairing.Relates (.inside unaryPower) (Node.SameBut differ)
      (Production.embedded strict)
      (Production.embedded strictOther) place other

namespace Abreast

open Parse Embedded

variable {pairing : Pairing}
variable {strict strictOther : Bool}
variable {differ : Value → Value → Span → Prop}

------------------------------------------------------------
-- Productions
------------------------------------------------------------

/-
  Statements of two runs may end before a closing token, where
  what is done with them is done alike.
-/
def Closes
    {α β : Type}
    (pairing : Pairing)
    (differ : Value → Value → Span → Prop)
    (scope : Scope)
    (related : α → β → Prop)
    (close : TokenKind)
    (next : List (Node Span) → Parse α)
    (follow : List (Node Span) → Parse β) : Prop :=
  ∀ {nodes others : List (Node Span)} {place other : Cursor}
    {more : Parse α} {moreOther : Parse β},
    Forward more →
      Forward moreOther →
        AllRelated (Node.SameBut differ) nodes others →
          pairing.Twin 0 place other →
            (pairing.Twin 0 (place.seeking [close])
                (other.seeking [close]) →
              pairing.Relates scope related more moreOther
                (place.seeking [close])
                (other.seeking [close])) →
              pairing.Relates scope related
                (check close >>= fun here =>
                  if here then next nodes else more)
                (check close >>= fun here =>
                  if here then follow others else moreOther)
                place other

section Parts

-- The longest productions have more parts than inference takes
-- together by default.
set_option synthInstance.maxSize 512

variable {depth : Nat}
variable
  (hBody :
    ∀ power,
      power ≤ postfixPower →
        ∀ {place other : Cursor},
          pairing.Twin 0 place other →
            pairing.Relates (.inside power) (Node.SameBut differ)
              (expression strict depth power)
              (expression strictOther depth power) place other)

include hBody

theorem relates_statement
    {place other : Cursor}
    (hTwin : pairing.Twin 0 place other) :
    pairing.Relates (.inside 0) (Node.SameBut differ)
      (Production.statement (expression strict depth))
      (Production.statement (expression strictOther depth))
      place other := by
  rw [Production.statement_eq, Production.statement_eq]
  refine .lookahead hTwin
    (fun _ _ => Production.name_of_isAssigned)
    (fun cursor hClosed _ =>
      (beyond_advance hClosed.next).of_eq
        (advance_bind_apply cursor _))
    (fun cursor hClosed _ =>
      (beyond_advance hClosed.next).of_eq
        (advance_bind_apply cursor _))
    (fun cursor hClosed hKind =>
      beyond_expression hClosed (hKind ▸ rfl) _ _ _)
    (fun _ hAhead => ?_) (hBody 0 (Nat.zero_le _) hTwin)
  rcases Production.name_of_isAssigned hAhead with ⟨hName, hSign⟩
  have hKind : place.current.kind ≠ .endOfInput := by
    rw [hName]
    exact nofun
  have hFollowing := hTwin.closed.current_next hKind
  refine .advance hTwin hKind fun _ hNamed =>
    .advance hNamed (hFollowing.symm ▸ hSign) fun _ hNext =>
      .bind hNext (hBody 0 (Nat.zero_le _) hNext)
        fun _ _ _ _ _ _ hSame hEnd => ?_
  exact .spanned hEnd _ (.assign hSame)

theorem relates_statements
    {α β : Type}
    {scope : Scope}
    {related : α → β → Prop}
    {close : TokenKind}
    {fuel fuelOther : Nat}
    {place other : Cursor}
    {next : List (Node Span) → Parse α}
    {follow : List (Node Span) → Parse β}
    [∀ nodes, Forward (next nodes)]
    [∀ nodes, Forward (follow nodes)]
    (hCloses :
      Closes pairing differ scope related close next follow)
    (hTwin : pairing.Twin 0 place other)
    (hFueled : Fueled fuel fuelOther place other) :
    pairing.Relates scope related
      (Production.statements (expression strict depth) close fuel
        >>= next)
      (Production.statements (expression strictOther depth) close
        fuelOther >>= follow) place other := by
  induction fuel generalizing fuelOther place other next follow with
  | zero => exact absurd hFueled.place (Nat.not_le.mpr place.fuel_pos)
  | succ fuel ih =>
      rcases hFueled.exists_succ with ⟨_, fuelOther, _, rfl⟩
      rw [Production.statements_bind, Production.statements_bind]
      refine hCloses inferInstance inferInstance .nil hTwin
        fun hStatement => ?_
      refine .bind hStatement (relates_statement hBody hStatement)
        fun first same after stop hOk _ hSame hAfter => ?_
      have hFirst :=
        Production.fuel_lt_of_statement hStatement.closed hOk
      rw [Cursor.fuel_seeking] at hFirst
      have hMore :
          Closes pairing differ scope related close
            (fun rest => next (first :: rest))
            (fun rest => follow (same :: rest)) :=
        fun hForward hForwardOther hNodes =>
          hCloses hForward hForwardOther (.cons hSame hNodes)
      have hSemicolon := after.fuel_next_le
      refine .test hAfter nofun
        (fun _ hNext =>
          ih hMore hNext (hFueled.less hTwin hNext (by omega)))
        fun hEnd => ?_
      refine hCloses inferInstance inferInstance
        (.cons hSame .nil) hEnd fun hLast => .get ?_
      rw [hLast.previous]
      split
      · exact ih hMore hLast (hFueled.less hTwin hLast hFirst)
      · exact .unexpected hLast
          (Cursor.sought_seeking_ne_nil (List.cons_ne_nil _ _))

theorem relates_block
    {power : Nat}
    {place other : Cursor}
    (hTwin : pairing.Twin power place other)
    (hKind : place.current.kind = .leftBrace) :
    pairing.Relates (.inside 0) (Node.SameBut differ)
      (Production.block (expression strict depth))
      (Production.block (expression strictOther depth))
      place other := by
  refine .advance hTwin (hKind ▸ nofun) fun hSame hNext =>
    .get (relates_statements hBody ?_ hNext (.refl _ _))
  intro nodes others here there more moreOther _ _ hNodes hHere
    hMore
  rw [check_expect_bind, check_expect_bind]
  exact .test hHere nofun
    (fun _ hEnd => .spanned hEnd _ (.sequence hNodes)) hMore

theorem relates_commaSeparated
    {fuel fuelOther : Nat}
    {place other : Cursor}
    (hTwin : pairing.Twin 0 place other)
    (hFueled : Fueled fuel fuelOther place other) :
    pairing.Relates (.inside 0) (AllRelated (Node.SameBut differ))
      (Production.commaSeparated (expression strict depth) fuel)
      (Production.commaSeparated (expression strictOther depth)
        fuelOther) place other := by
  induction fuel generalizing fuelOther place other with
  | zero => exact absurd hFueled.place (Nat.not_le.mpr place.fuel_pos)
  | succ fuel ih =>
      rcases hFueled.exists_succ with ⟨_, fuelOther, _, rfl⟩
      rw [Production.commaSeparated_succ,
        Production.commaSeparated_succ]
      refine .bind hTwin (hBody 0 (Nat.zero_le _) hTwin)
        fun first same after stop hOk _ hSame hAfter => ?_
      refine .test hAfter nofun (fun hComma hNext => ?_)
        fun hEnd => .pure hEnd (.cons hSame .nil)
      have hFirst := (Forward.beyond _ hTwin.closed).fuel_le hOk
      have hLast := hAfter.closed.fuel_next_lt (hComma ▸ nofun)
      exact .bind hNext
        (ih hNext (hFueled.less hTwin hNext (by omega)))
        fun _ _ _ _ _ _ hRest hEnd => .pure hEnd (.cons hSame hRest)

theorem relates_array
    {power : Nat}
    {place other : Cursor}
    (hTwin : pairing.Twin power place other)
    (hKind : place.current.kind = .leftBracket) :
    pairing.Relates (.inside unaryPower) (Node.SameBut differ)
      (Production.array (expression strict depth))
      (Production.array (expression strictOther depth))
      place other := by
  rw [Production.array_eq, Production.array_eq]
  refine .advance hTwin (hKind ▸ nofun) fun hSame hNext => ?_
  refine .test hNext nofun
    (fun _ hEnd => .spanned hEnd.of_zero _ (.array .nil))
    fun hItems => .get ?_
  refine .bind hItems
    (relates_commaSeparated hBody hItems (.refl _ _))
    fun _ _ _ _ _ _ hNodes hAfter => ?_
  exact .expected hAfter nofun fun _ hEnd =>
    .spanned hEnd.of_zero _ (.array hNodes)

theorem relates_namedArguments
    {fuel fuelOther : Nat}
    {place other : Cursor}
    {earlier earlierOther : Fields (Node Span)}
    (hTwin : pairing.Twin 0 place other)
    (hFueled : Fueled fuel fuelOther place other)
    (hEarlier : Fields.Related (Node.SameBut differ) earlier earlierOther) :
    pairing.Relates (.inside 0) (Fields.Related (Node.SameBut differ))
      (Production.namedArguments (expression strict depth) fuel
        earlier)
      (Production.namedArguments (expression strictOther depth)
        fuelOther earlierOther) place other := by
  induction fuel generalizing fuelOther place other earlier
      earlierOther with
  | zero => exact absurd hFueled.place (Nat.not_le.mpr place.fuel_pos)
  | succ fuel ih =>
      rcases hFueled.exists_succ with ⟨_, fuelOther, _, rfl⟩
      rw [Production.namedArguments_succ,
        Production.namedArguments_succ]
      refine .expected hTwin nofun fun _ hNamed =>
        .either hNamed nofun nofun fun hSign hNext => ?_
      refine .bind hNext (hBody 0 (Nat.zero_le _) hNext)
        fun value same after stop hOk _ hSame hAfter => ?_
      have hLater := hEarlier.set hSame place.current.text
      refine .test hAfter nofun (fun hComma hRest => ?_)
        fun hEnd => .pure hEnd hLater
      have hName := place.fuel_next_le
      have hValue := (Forward.beyond _ hNext.closed).fuel_le hOk
      have hLast := after.fuel_next_le
      exact ih hRest (hFueled.less hTwin hRest (by omega)) hLater

theorem relates_call
    {power : Nat}
    {place other : Cursor}
    (hTwin : pairing.Twin power place other)
    (hKind : place.current.kind = .leftParen)
    (name : Text)
    (start : Span) :
    pairing.Relates (.inside 0) (Node.SameBut differ)
      (Production.call (expression strict depth) name start)
      (Production.call (expression strictOther depth) name start)
      place other := by
  rw [Production.call_eq, Production.call_eq]
  refine .advance hTwin (hKind ▸ nofun) fun _ hNext => ?_
  refine .test hNext nofun
    (fun _ hEnd => .spanned hEnd _ (.callNamed .nil))
    fun hArguments => ?_
  refine .lookahead hArguments
    (fun _ _ => Production.name_of_isNamed)
    (fun cursor hClosed hAhead =>
      ((Production.beyond_namedArguments _ hClosed hAhead _ _).bind
        hClosed.next.next).of_eq (get_bind_apply cursor _))
    (fun cursor hClosed hAhead =>
      ((Production.beyond_namedArguments _ hClosed hAhead _ _).bind
        hClosed.next.next).of_eq (get_bind_apply cursor _))
    (fun cursor hClosed hName =>
      ((Production.beyond_commaSeparated hClosed (hName ▸ rfl) _ _
        _).bind hClosed.next).of_eq (get_bind_apply cursor _))
    (fun _ _ => .get ?_) (.get ?_)
  · refine .bind hArguments
      (relates_namedArguments hBody hArguments (.refl _ _) .nil)
      fun _ _ _ _ _ _ hFields hAfter => ?_
    exact .expected hAfter nofun fun _ hEnd =>
      .spanned hEnd _ (.callNamed hFields)
  · refine .bind hArguments
      (relates_commaSeparated hBody hArguments (.refl _ _))
      fun _ _ _ _ _ _ hNodes hAfter => ?_
    exact .expected hAfter nofun fun _ hEnd =>
      .spanned hEnd _ (.call hNodes)

theorem relates_cases
    {fuel fuelOther : Nat}
    {place other : Cursor}
    {next follow : List (Case Span) → Parse (Node Span)}
    [∀ inner, Forward (next inner)]
    [∀ inner, Forward (follow inner)]
    (hTwin : pairing.Twin 0 place other)
    (hFueled : Fueled fuel fuelOther place other)
    (hNext :
      ∀ {inner innerOther : List (Case Span)}
        {here there : Cursor},
        Node.CasesSameBut differ inner innerOther →
          pairing.Twin 0 here there →
            pairing.Relates (.inside 0) (Node.SameBut differ)
              (next inner) (follow innerOther) here there) :
    pairing.Relates (.inside 0) (Node.SameBut differ)
      (do
        let inner ←
          Production.cases (expression strict depth) fuel
        let _ ← advance
        next inner)
      (do
        let inner ←
          Production.cases (expression strictOther depth) fuelOther
        let _ ← advance
        follow inner) place other := by
  induction fuel generalizing fuelOther place other next follow with
  | zero => exact absurd hFueled.place (Nat.not_le.mpr place.fuel_pos)
  | succ fuel ih =>
      rcases hFueled.exists_succ with ⟨_, fuelOther, _, rfl⟩
      rw [Production.cases_bind, Production.cases_bind,
        check_advance_bind, check_advance_bind]
      refine .test hTwin nofun (fun _ hEnd => hNext .nil hEnd)
        fun hMore => ?_
      refine .afterConnective hMore
        (fun hClosed hStarts =>
          (beyond_expression hClosed hStarts _ _ _).bind
            hClosed.next)
        (fun hClosed hStarts =>
          (beyond_expression hClosed hStarts _ _ _).bind
            hClosed.next)
        (fun hHere hGuardTwin => ?_) "case"
      refine .bind hGuardTwin (hBody 0 (Nat.zero_le _) hGuardTwin)
        fun guard otherGuard middle _ hGuardOk _ hGuard hMiddle =>
          ?_
      refine .either hMiddle nofun nofun fun hSign hResultTwin => ?_
      refine .bind hResultTwin (hBody 0 (Nat.zero_le _) hResultTwin)
        fun result otherResult after _ hResultOk _ hResult hAfter =>
          ?_
      refine .optional hAfter nofun fun hThere hRest => ?_
      have hFirst :=
        (Forward.beyond _ hGuardTwin.closed).fuel_le hGuardOk
      have hSecond :=
        (Forward.beyond _ hResultTwin.closed).fuel_le hResultOk
      rw [Cursor.fuel_seeking] at hHere
      exact ih hRest (hFueled.less hTwin hRest (by omega))
        fun hInner => hNext (.cons hGuard hResult hInner)

theorem relates_switch
    {power : Nat}
    {place other : Cursor}
    (hTwin : pairing.Twin power place other)
    (hKind : place.current.kind = .switchWord) :
    pairing.Relates (.inside 0) (Node.SameBut differ)
      (Production.switch (expression strict depth))
      (Production.switch (expression strictOther depth))
      place other := by
  rw [Production.switch_eq, Production.switch_eq]
  refine .advance hTwin (hKind ▸ nofun) fun _ hWord =>
    .expected hWord nofun fun _ hNext => .get ?_
  exact relates_cases hBody hNext (.refl _ _)
    fun hInner hEnd => .spanned hEnd _ (.switch hInner)

theorem relates_branches
    {fuel fuelOther : Nat}
    {place other : Cursor}
    (hTwin : pairing.Twin 0 place other)
    (hFueled : Fueled fuel fuelOther place other) :
    pairing.Relates (.inside 0) (Node.BranchesSameBut differ)
      (Production.branches (expression strict depth) fuel)
      (Production.branches (expression strictOther depth)
        fuelOther) place other := by
  induction fuel generalizing fuelOther place other with
  | zero => exact absurd hFueled.place (Nat.not_le.mpr place.fuel_pos)
  | succ fuel ih =>
      rcases hFueled.exists_succ with ⟨_, fuelOther, _, rfl⟩
      rw [Production.branches_succ, Production.branches_succ]
      refine .expected hTwin nofun fun hParen hInside => ?_
      refine .bind hInside (hBody 0 (Nat.zero_le _) hInside)
        fun guard otherGuard middle _ hGuardOk _ hGuard hMiddle =>
          ?_
      refine .expected hMiddle nofun fun _ hThen => ?_
      refine .afterThen hThen
        (fun hClosed hStarts =>
          (beyond_expression hClosed hStarts _ _ _).bind
            hClosed.next)
        (fun hClosed hStarts =>
          (beyond_expression hClosed hStarts _ _ _).bind
            hClosed.next)
        fun hHere hResultTwin => ?_
      refine .bind hResultTwin (hBody 0 (Nat.zero_le _) hResultTwin)
        fun result otherResult after _ hResultOk _ hResult hAfter =>
          ?_
      refine .test hAfter nofun (fun _ hElse => ?_)
        fun hEnd => .pure hEnd (.test hGuard hResult .nil)
      refine .test hElse nofun (fun _ hIf => ?_) fun hLast => ?_
      · have hFirst :=
          (Forward.beyond _ hInside.closed).fuel_le hGuardOk
        have hSecond :=
          (Forward.beyond _ hResultTwin.closed).fuel_le hResultOk
        have hTaken :=
          hTwin.closed.fuel_next_lt (hParen ▸ nofun)
        have hMiddleNext := middle.fuel_next_le
        have hAfterNext := after.fuel_next_le
        have hElseNext := after.next.fuel_next_le
        exact .bind hIf
          (ih hIf (hFueled.less hTwin hIf (by omega)))
          fun _ _ _ _ _ _ hRest hEnd =>
            .pure hEnd (.test hGuard hResult hRest)
      · exact .bind hLast (hBody 0 (Nat.zero_le _) hLast)
          fun _ _ _ _ _ _ hSame hEnd =>
            .pure hEnd
              (.test hGuard hResult (.otherwise hSame .nil))

theorem relates_ifChain
    {power : Nat}
    {place other : Cursor}
    (hTwin : pairing.Twin power place other)
    (hKind : place.current.kind = .ifWord) :
    pairing.Relates (.inside 0) (Node.SameBut differ)
      (Production.ifChain (expression strict depth))
      (Production.ifChain (expression strictOther depth))
      place other := by
  refine .advance hTwin (hKind ▸ nofun) fun _ hNext => .get ?_
  exact .bind hNext (relates_branches hBody hNext (.refl _ _))
    fun _ _ _ _ _ _ hSteps hEnd =>
      .spanned hEnd _ (.cond hSteps)

theorem relates_parenthesised
    {power : Nat}
    {place other : Cursor}
    (hTwin : pairing.Twin power place other)
    (hKind : place.current.kind = .leftParen) :
    pairing.Relates (.inside 0) (Node.SameBut differ)
      (Production.parenthesised (expression strict depth))
      (Production.parenthesised (expression strictOther depth))
      place other := by
  unfold Production.parenthesised
  simp only [Parse.expect_bind]
  exact .advance hTwin (hKind ▸ nofun) fun _ hNext =>
    .bind hNext (hBody 0 (Nat.zero_le _) hNext) fun _ _ _ _ _ _ hSame hAfter =>
      .expected hAfter nofun fun _ hEnd => .pure hEnd hSame

theorem relates_returned
    {power : Nat}
    {place other : Cursor}
    (hTwin : pairing.Twin power place other)
    (hKind : place.current.kind = .returnWord) :
    pairing.Relates (.inside 0) (Node.SameBut differ)
      (Production.returned (expression strict depth))
      (Production.returned (expression strictOther depth))
      place other :=
  .advance hTwin (hKind ▸ nofun) fun _ hNext =>
    .bind hNext (hBody 0 (Nat.zero_le _) hNext) fun _ _ _ _ _ _ hSame hAfter =>
      .spanned hAfter _ (.return hSame)

theorem relates_unary
    {power : Nat}
    {place other : Cursor}
    (hTwin : pairing.Twin power place other)
    (hKind : place.current.kind ≠ .endOfInput)
    (op : UnaryOp) :
    pairing.Relates (.inside unaryPower) (Node.SameBut differ)
      (Production.unary (expression strict depth) op)
      (Production.unary (expression strictOther depth) op)
      place other :=
  .advance hTwin hKind fun _ hNext =>
    .bind hNext (hBody unaryPower (by decide) hNext)
      fun _ _ _ _ _ _ hSame hAfter =>
        .spanned hAfter _ (.unary hSame)

theorem relates_index
    {power : Nat}
    {place other : Cursor}
    {base baseOther : Node Span}
    (hTwin : pairing.Twin power place other)
    (hKind : place.current.kind = .leftBracket)
    (hBase : Node.SameBut differ base baseOther) :
    pairing.Relates (.inside 0) (Node.SameBut differ)
      (Production.index (expression strict depth) base)
      (Production.index (expression strictOther depth) baseOther)
      place other := by
  unfold Production.index
  simp only [Parse.expect_bind, hBase.span_eq]
  exact .advance hTwin (hKind ▸ nofun) fun _ hNext =>
    .bind hNext (hBody 0 (Nat.zero_le _) hNext) fun _ _ _ _ _ _ hSame hAfter =>
      .expected hAfter nofun fun _ hEnd =>
        .spanned hEnd _ (.index hBase hSame)

------------------------------------------------------------
-- Expressions
------------------------------------------------------------

theorem relates_operand
    (hAbreast : pairing.Abreast strict strictOther differ)
    {place other : Cursor}
    (hTwin : pairing.Twin 0 place other) :
    pairing.Relates (.inside unaryPower) (Node.SameBut differ)
      (Production.operand strict (expression strict depth))
      (Production.operand strictOther
        (expression strictOther depth)) place other := by
  refine .decide (fun kind => kind.startsOperand = true)
    hTwin (by decide)
    (fun hStarts =>
      Production.beyond_operand _ hTwin.closed hStarts _)
    (fun hStarts =>
      Production.beyond_operand _ hTwin.closedOther hStarts _)
    (fun hStarts hBefore => ?_) fun hPlace hOther => ?_
  · have hKind : place.current.kind ≠ .endOfInput := by
      intro hEnd
      rw [hEnd] at hStarts
      cases hStarts
    have hConstant (value : Value) :
        pairing.Relates (.inside unaryPower) (Node.SameBut differ)
          (Production.constant value) (Production.constant value)
          place other :=
      .advance hTwin hKind fun _ hNext =>
        .pure hNext.of_zero (.literal _ _)
    refine .of_eq (current_bind_apply place _)
      (current_bind_apply other _) ?_
    rw [← hTwin.current_eq hBefore]
    split
    · exact relates_unary hBody hTwin hKind _
    · exact relates_unary hBody hTwin hKind _
    · exact hConstant _
    · exact hConstant _
    · exact hConstant _
    · exact hConstant _
    · exact hConstant _
    · exact .advance hTwin hKind fun _ hNext =>
        .pure hNext.of_zero (.variable _ _)
    · exact .of_zero (relates_parenthesised hBody hTwin ‹_›)
    · exact relates_array hBody hTwin ‹_›
    · exact .of_zero (relates_block hBody hTwin ‹_›)
    · exact hAbreast.embedded hTwin hBefore ‹_›
    · exact .of_zero (relates_switch hBody hTwin ‹_›)
    · exact .of_zero (relates_ifChain hBody hTwin ‹_›)
    · exact .of_zero (relates_returned hBody hTwin ‹_›)
    · exact .of_eq (seek_bind_apply place _ _)
        (seek_bind_apply other _ _)
        (.unexpected
          (hTwin.seeking fun hFork => absurd hFork hBefore)
          (Cursor.sought_seeking_ne_nil (by decide)))
  · rw [Bool.not_eq_true] at hPlace hOther
    refine .of_eq
      (Production.operand_of_not_startsOperand _ hPlace strict)
      (Production.operand_of_not_startsOperand _ hOther strictOther)
      (.unexpected (hTwin.seeking fun _ hFound => ?_)
        (Cursor.sought_seeking_ne_nil (by decide)))
    rw [TokenKind.startsOperand, List.contains_eq_mem,
      decide_eq_false_iff_not] at hOther
    exact absurd hFound hOther

theorem relates_operators
    {start power fuel fuelOther : Nat}
    {place other : Cursor}
    {chain chainOther : Chain}
    (hBound : power ≤ postfixPower)
    (hChain : Chain.SameBut differ chain chainOther)
    (hTwin : pairing.Twin start place other)
    (hFueled : Fueled fuel fuelOther place other) :
    pairing.Relates (.inside power) (Node.SameBut differ)
      (Production.operators (expression strict depth) power fuel
        chain)
      (Production.operators (expression strictOther depth) power
        fuelOther chainOther) place other := by
  induction fuel generalizing fuelOther place other chain
      chainOther start with
  | zero => exact absurd hFueled.place (Nat.not_le.mpr place.fuel_pos)
  | succ fuel ih =>
      rcases hFueled.exists_succ with ⟨_, fuelOther, _, rfl⟩
      have hCallee := hChain.node.callee?_eq
      refine .decide
        (fun kind => ¬ Production.Stops power chain.node kind) hTwin
        (not_not_intro
          ⟨nofun, nofun, by simp [TokenKind.level?]⟩)
        (fun hContinues => Production.beyond_operators _
          hTwin.closed hContinues fuel)
        (fun hContinues => Production.beyond_operators _
          hTwin.closedOther
            (fun hStops => hContinues (hStops.congr hCallee.symm))
            fuelOther)
        (fun hContinues hBefore => ?_) fun hPlace hOther => ?_
      · have hSame := hTwin.current_eq hBefore
        have hSeeking :
            pairing.Twin start
              (place.seeking
                (Production.continuations chain.node))
              (other.seeking
                (Production.continuations chainOther.node)) := by
          rw [Production.continuations, hCallee]
          exact hTwin.seeking fun hFork => absurd hFork hBefore
        have hMore {here there : Cursor} {more moreOther : Chain}
            (hMore : Chain.SameBut differ more moreOther)
            {power : Nat}
            (hHere : pairing.Twin power here there)
            (hLess : here.fuel ≤ place.next.fuel)
            (hKind : place.current.kind ≠ .endOfInput) :=
          ih hMore hHere
            (hFueled.less hTwin hHere
              (Nat.lt_of_le_of_lt hLess
                (hTwin.closed.fuel_next_lt hKind)))
        rcases Production.continues_or_stops power chain.node
            place.current.kind with
          ⟨hIndex, -⟩ | ⟨hParen, -, name, span, hName⟩ |
            ⟨found, hLevel, hPower⟩ | hStops
        · refine .of_eq
            (Production.operators_of_index hIndex hBound fuel)
            (Production.operators_of_index (hSame ▸ hIndex) hBound
              fuelOther) ?_
          refine .bind hSeeking
            (relates_index hBody hSeeking hIndex hChain.node)
            fun node same after stop hOk _ hNode hAfter => ?_
          refine hMore ⟨hNode, rfl⟩ hAfter ?_ (by simp [hIndex])
          rw [← Cursor.next_seeking place]
          exact
            (Production.beyond_index _ hSeeking.closed _).fuel_le hOk
        · refine .of_eq
            (Production.operators_of_call hParen hBound hName fuel)
            (Production.operators_of_call (hSame ▸ hParen) hBound
              (hCallee ▸ hName) fuelOther) ?_
          refine .bind hSeeking
            (relates_call hBody hSeeking hParen name span)
            fun node same after stop hOk _ hNode hAfter => ?_
          refine hMore ⟨hNode, rfl⟩ hAfter ?_ (by simp [hParen])
          rw [← Cursor.next_seeking place]
          exact
            (Production.beyond_call _ hSeeking.closed _ _).fuel_le
              hOk
        · have hKind : place.current.kind ≠ .endOfInput := by
            intro hEnd
            rw [hEnd] at hLevel
            cases hLevel
          refine .of_eq
            (Production.operators_of_level hLevel hPower fuel)
            (Production.operators_of_level (hSame ▸ hLevel) hPower
              fuelOther) ?_
          rw [← hSame]
          have hNext := hTwin.next hBefore hKind
          have hRight : 2 * found ≤ postfixPower := by
            have hMost := (TokenKind.level?_le hLevel).2
            rw [postfixPower]
            omega
          exact .bind hNext (hBody (2 * found) hRight hNext)
            fun right same after stop hOk _ hRight hAfter =>
              hMore (hChain.combine hRight _) hAfter
                ((Forward.beyond _ hNext.closed).fuel_le hOk) hKind
        · exact absurd hStops hContinues
      · rw [Classical.not_not] at hPlace hOther
        have hStops := hOther.congr hCallee
        exact .of_eq (Production.operators_of_stops hPlace fuel)
          (Production.operators_of_stops hStops fuelOther)
          (.pure (hTwin.stopping hCallee hStops hBound) hChain.node)

end Parts

variable (hAbreast : pairing.Abreast strict strictOther differ)

include hAbreast

theorem relates_expression
    (depth power : Nat)
    (hBound : power ≤ postfixPower)
    {place other : Cursor}
    (hTwin : pairing.Twin 0 place other) :
    pairing.Relates (.inside power) (Node.SameBut differ)
      (expression strict depth power)
      (expression strictOther depth power) place other := by
  induction depth generalizing power place other with
  | zero => exact .tooDeep rfl
  | succ depth ih =>
      exact .bind hTwin (relates_operand ih hAbreast hTwin)
        fun first same _ _ _ _ hSame hAfter =>
          .get (relates_operators ih hBound ⟨hSame, rfl⟩ hAfter
            (.refl _ _))

theorem relates_script
    {place other : Cursor}
    (hTwin : pairing.Twin 0 place other) :
    pairing.Relates .whole (Node.SameBut differ) (script strict)
      (script strictOther) place other := by
  refine .get (relates_statements
    (hAbreast.relates_expression maxDepth) ?_ hTwin (.refl _ _))
  intro nodes others here there more moreOther _ _ hNodes hHere
    hMore
  refine .finish hHere (fun cursor => ⟨_, rfl⟩)
    (fun cursor => ⟨_, rfl⟩) (fun hSame hEnd => ?_) hMore
  refine .inr (.inr (.inr ⟨_, _, rfl, ?_, hEnd⟩))
  rw [Cursor.current_seeking, Cursor.current_seeking, hSame]
  exact .sequence hNodes

end Abreast

end Pairing

end ExperimentScript
