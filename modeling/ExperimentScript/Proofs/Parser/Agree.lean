import ExperimentScript.Proofs.Parser.Outcome

/-
  Steps of reading that give the same.

  The kinds that were looked for at a place only appear in
  errors. Two steps agree when, from the same place whatever
  was looked for there, both fail or both give the same result
  and leave the same place. Tokens are taken to end in a token
  that marks their end, as only then every token before it can
  be moved past.

  Key definitions include:
    * `ExperimentScript.Cursor.Alike`
    * `ExperimentScript.Cursor.Closed`
    * `ExperimentScript.Parse.AgreesAt`
    * `ExperimentScript.Parse.Agrees`

  Main declarations:
    * `ExperimentScript.Parse.AgreesAt.bind`
    * `ExperimentScript.Parse.Agrees.trans`
    * `ExperimentScript.Parse.Agrees.outcome?_eq`
-/

namespace ExperimentScript

------------------------------------------------------------
-- Places
------------------------------------------------------------

namespace Cursor

/- Cursors at the same place, whatever was looked for there. -/
structure Alike (cursor other : Cursor) : Prop where
  previous : cursor.previous = other.previous
  current : cursor.current = other.current
  ahead : cursor.ahead = other.ahead

/- The tokens from the place on end in the only one that marks an end. -/
def Closed (cursor : Cursor) : Prop :=
  ∃ tokens close,
    cursor.rest = tokens ++ [close] ∧
      close.kind = .endOfInput ∧
      ∀ token ∈ tokens, token.kind ≠ .endOfInput

namespace Alike

variable {cursor other third : Cursor}

theorem refl (cursor : Cursor) : cursor.Alike cursor :=
  ⟨rfl, rfl, rfl⟩

theorem symm
    (hAlike : cursor.Alike other) :
    other.Alike cursor :=
  ⟨hAlike.previous.symm, hAlike.current.symm,
    hAlike.ahead.symm⟩

theorem trans
    (hFirst : cursor.Alike other)
    (hSecond : other.Alike third) :
    cursor.Alike third :=
  ⟨hFirst.previous.trans hSecond.previous,
    hFirst.current.trans hSecond.current,
    hFirst.ahead.trans hSecond.ahead⟩

theorem rest
    (hAlike : cursor.Alike other) :
    cursor.rest = other.rest := by
  rw [Cursor.rest, Cursor.rest, hAlike.current, hAlike.ahead]

theorem fuel
    (hAlike : cursor.Alike other) :
    cursor.fuel = other.fuel := by
  rw [Cursor.fuel, Cursor.fuel, hAlike.ahead]

theorem following
    (hAlike : cursor.Alike other) :
    cursor.following = other.following := by
  rw [Cursor.following, Cursor.following, hAlike.ahead,
    hAlike.current]

theorem seeking
    (hAlike : cursor.Alike other)
    (kinds others : List TokenKind) :
    (cursor.seeking kinds).Alike (other.seeking others) :=
  ⟨hAlike.previous, hAlike.current, hAlike.ahead⟩

theorem seeking_left
    (hAlike : cursor.Alike other)
    (kinds : List TokenKind) :
    (cursor.seeking kinds).Alike other :=
  ⟨hAlike.previous, hAlike.current, hAlike.ahead⟩

theorem next
    (hAlike : cursor.Alike other) :
    cursor.next.Alike other.next := by
  have hAhead := hAlike.ahead
  cases hTokens : cursor.ahead with
  | nil =>
      rw [hTokens] at hAhead
      simp only [Cursor.next, hTokens, ← hAhead]
      exact ⟨hAlike.previous, hAlike.current, rfl⟩
  | cons token tokens =>
      rw [hTokens] at hAhead
      simp only [Cursor.next, hTokens, ← hAhead]
      exact ⟨hAlike.current, rfl, rfl⟩

theorem closed
    (hAlike : cursor.Alike other)
    (hClosed : cursor.Closed) :
    other.Closed := by
  simpa only [Closed, hAlike.rest] using hClosed

end Alike

namespace Closed

variable {cursor : Cursor}

/- Only the last of the tokens left marks their end. -/
theorem kind_eq_iff
    (hClosed : cursor.Closed) :
    cursor.current.kind = .endOfInput ↔ cursor.ahead = [] := by
  rcases hClosed with ⟨tokens, close, hRest, hClose, hTokens⟩
  cases tokens with
  | nil =>
      simp only [Cursor.rest, List.nil_append, List.cons.injEq]
        at hRest
      simp [hRest, hClose]
  | cons first tokens =>
      simp only [Cursor.rest, List.cons_append, List.cons.injEq]
        at hRest
      simp [hRest, hTokens first]

theorem next
    (hClosed : cursor.Closed) :
    cursor.next.Closed := by
  rcases hClosed with ⟨tokens, close, hRest, hClose, hTokens⟩
  cases tokens with
  | nil =>
      refine ⟨[], close, ?_, hClose, hTokens⟩
      simp only [Cursor.rest, List.nil_append, List.cons.injEq]
        at hRest
      simp [Cursor.next, Cursor.rest, hRest]
  | cons first tokens =>
      refine
        ⟨tokens, close, ?_, hClose,
          fun token hMem => hTokens token (by simp [hMem])⟩
      simp only [Cursor.rest, List.cons_append, List.cons.injEq]
        at hRest
      cases tokens <;>
        simp [Cursor.next, Cursor.rest, hRest]

/- Moving past a token leaves fewer of them. -/
theorem fuel_next_lt
    (hClosed : cursor.Closed)
    (hKind : cursor.current.kind ≠ .endOfInput) :
    cursor.next.fuel < cursor.fuel := by
  have hAhead := mt hClosed.kind_eq_iff.mpr hKind
  cases hTokens : cursor.ahead with
  | nil => exact absurd hTokens hAhead
  | cons token tokens =>
      simp [Cursor.next, Cursor.fuel, hTokens]

/- The places after the first of such tokens are closed. -/
theorem skip
    (hClosed : cursor.Closed)
    (count : Nat) :
    (cursor.skip count).Closed := by
  induction count generalizing cursor with
  | zero => exact hClosed
  | succ count ih => exact ih hClosed.next

/- Tokens that end in their only end are closed at the first of them. -/
theorem start
    {tokens : List Token}
    {close : Token}
    (hClose : close.kind = .endOfInput)
    (hTokens : ∀ token ∈ tokens, token.kind ≠ .endOfInput) :
    (Cursor.start (tokens ++ [close])).Closed := by
  refine ⟨tokens, close, ?_, hClose, hTokens⟩
  cases tokens <;> rfl

end Closed

end Cursor

------------------------------------------------------------
-- Agreement
------------------------------------------------------------

namespace Parse

variable {α β : Type}

/-
  From one place each, both of two steps fail, or they give
  the same result and leave the same place.
-/
def AgreesAt
    (first second : Parse α)
    (cursor other : Cursor) : Prop :=
  match first cursor, second other with
  | .ok result after, .ok same afterOther =>
    result = same ∧ after.Alike afterOther ∧ after.Closed
  | .error _ _, .error _ _ => True
  | _, _ => False

/- Two steps agree from every place. -/
def Agrees (first second : Parse α) : Prop :=
  ∀ cursor other, cursor.Alike other → cursor.Closed →
    first.AgreesAt second cursor other

/-
  Steps that agree can be followed by steps that agree where
  the first have ended.
-/
theorem AgreesAt.bind
    {first second : Parse β}
    {next other : β → Parse α}
    {cursor place : Cursor}
    (hFirst : first.AgreesAt second cursor place)
    (hNext :
      ∀ result after afterOther,
        first cursor = .ok result after →
        after.Alike afterOther →
        after.Closed →
        (next result).AgreesAt (other result) after afterOther) :
    (first >>= next).AgreesAt (second >>= other) cursor place := by
  unfold AgreesAt at hFirst ⊢
  simp only [Bind.bind, EStateM.bind]
  cases hLeft : first cursor with
  | ok result after =>
      cases hRight : second place with
      | ok same afterOther =>
          rw [hLeft, hRight] at hFirst
          rcases hFirst with ⟨rfl, hAlike, hClosed⟩
          exact hNext result after afterOther hLeft hAlike hClosed
      | error error afterOther =>
          rw [hLeft, hRight] at hFirst
          exact hFirst.elim
  | error error after =>
      cases hRight : second place with
      | ok same afterOther =>
          rw [hLeft, hRight] at hFirst
          exact hFirst.elim
      | error other afterOther => trivial

/- Agreement is about what steps do from their places. -/
theorem AgreesAt.of_eq
    {first second left right : Parse α}
    {cursor place start other : Cursor}
    (hFirst : first cursor = left start)
    (hSecond : second place = right other)
    (hAgrees : left.AgreesAt right start other) :
    first.AgreesAt second cursor place := by
  unfold AgreesAt at hAgrees ⊢
  rw [hFirst, hSecond]
  exact hAgrees

/- Where the first of two steps that agree gives a result, the second does. -/
theorem AgreesAt.exists_ok
    {first second : Parse α}
    {cursor other after : Cursor}
    {result : α}
    (hAgrees : first.AgreesAt second cursor other)
    (hOk : first cursor = .ok result after) :
    ∃ stop, second other = .ok result stop ∧ after.Alike stop := by
  unfold AgreesAt at hAgrees
  rw [hOk] at hAgrees
  cases hStep : second other with
  | error error stop =>
      rw [hStep] at hAgrees
      exact hAgrees.elim
  | ok same stop =>
      rw [hStep] at hAgrees
      rcases hAgrees with ⟨rfl, hAlike, -⟩
      exact ⟨stop, rfl, hAlike⟩

/- What follows a step follows what the step comes down to. -/
theorem bind_congr_at
    {first second : Parse β}
    {cursor other : Cursor}
    (hEq : first cursor = second other)
    (next : β → Parse α) :
    (first >>= next) cursor = (second >>= next) other := by
  simp only [Bind.bind, EStateM.bind, hEq]

/- Steps that agree give the same and leave the same tokens. -/
theorem Agrees.outcome?_eq
    {first second : Parse α}
    {cursor : Cursor}
    (hAgrees : Agrees first second)
    (hClosed : cursor.Closed) :
    first.outcome? cursor = second.outcome? cursor := by
  have hAt := hAgrees cursor cursor (.refl cursor) hClosed
  unfold AgreesAt at hAt
  unfold outcome?
  cases hLeft : first cursor <;> cases hRight : second cursor
  all_goals simp only [hLeft, hRight] at hAt ⊢
  rcases hAt with ⟨rfl, hAlike, -⟩
  rw [hAlike.rest]

namespace Agrees

variable {first second third : Parse α}

theorem symm (hAgrees : Agrees first second) :
    Agrees second first := by
  intro cursor other hAlike hClosed
  have hAt :=
    hAgrees other cursor hAlike.symm (hAlike.closed hClosed)
  unfold AgreesAt at hAt ⊢
  cases hLeft : first other <;> cases hRight : second cursor
  all_goals simp only [hLeft, hRight] at hAt ⊢
  exact
    ⟨hAt.1.symm, hAt.2.1.symm, hAt.2.1.closed hAt.2.2⟩

theorem trans
    (hFirst : Agrees first second)
    (hSecond : Agrees second third) :
    Agrees first third := by
  intro cursor other hAlike hClosed
  have hLeft := hFirst cursor other hAlike hClosed
  have hRight :=
    hSecond other other (.refl other) (hAlike.closed hClosed)
  unfold AgreesAt at hLeft hRight ⊢
  cases hOne : first cursor <;> cases hTwo : second other <;>
    cases hThree : third other
  all_goals simp only [hOne, hTwo, hThree] at hLeft hRight ⊢
  exact
    ⟨hLeft.1.trans hRight.1, hLeft.2.1.trans hRight.2.1,
      hLeft.2.2⟩

/- A step that agrees with another agrees with itself. -/
theorem refl_left (hAgrees : Agrees first second) :
    Agrees first first :=
  hAgrees.trans hAgrees.symm

theorem bind
    {start other : Parse β}
    {next follow : β → Parse α}
    (hStart : Agrees start other)
    (hNext : ∀ result, Agrees (next result) (follow result)) :
    Agrees (start >>= next) (other >>= follow) :=
  fun cursor place hAlike hClosed =>
    (hStart cursor place hAlike hClosed).bind
      fun result after afterOther _ hAfter hAfterClosed =>
        hNext result after afterOther hAfter hAfterClosed

theorem pure (result : α) :
    Agrees (Pure.pure result) (Pure.pure result) :=
  fun _ _ hAlike hClosed => ⟨rfl, hAlike, hClosed⟩

theorem ite
    {condition : Prop}
    [Decidable condition]
    {start other next follow : Parse α}
    (hThen : condition → Agrees start other)
    (hElse : ¬ condition → Agrees next follow) :
    Agrees (if condition then start else next)
      (if condition then other else follow) := by
  split
  · exact hThen ‹_›
  · exact hElse ‹_›

------------------------------------------------------------
-- Basic Steps
------------------------------------------------------------

theorem unexpected :
    Agrees (Parse.unexpected : Parse α) Parse.unexpected :=
  fun _ _ _ _ => trivial

theorem throw (error : SyntaxError) :
    Agrees (MonadExcept.throw error : Parse α)
      (MonadExcept.throw error) :=
  fun _ _ _ _ => trivial

theorem tooDeep (cause : SyntaxCause) :
    Agrees (Parse.tooDeep cause : Parse α)
      (Parse.tooDeep cause) :=
  fun _ _ _ _ => trivial

theorem current : Agrees Parse.current Parse.current :=
  fun _ _ hAlike hClosed => ⟨hAlike.current, hAlike, hClosed⟩

theorem followingKind :
    Agrees Parse.followingKind Parse.followingKind :=
  fun _ _ hAlike hClosed =>
    ⟨congrArg Token.kind hAlike.following, hAlike, hClosed⟩

theorem advance : Agrees Parse.advance Parse.advance :=
  fun _ _ hAlike hClosed =>
    ⟨hAlike.current, hAlike.next, hClosed.next⟩

theorem seek (kinds others : List TokenKind) :
    Agrees (Parse.seek kinds) (Parse.seek others) :=
  fun _ _ hAlike hClosed =>
    ⟨rfl, hAlike.seeking kinds others, hClosed⟩

theorem check (kind : TokenKind) :
    Agrees (Parse.check kind) (Parse.check kind) := by
  intro cursor other hAlike hClosed
  refine ⟨?_, hAlike.seeking [kind] [kind], hClosed⟩
  change
    decide (cursor.current.kind = kind) =
      decide (other.current.kind = kind)
  rw [hAlike.current]

theorem spanFrom (start : Span) :
    Agrees (Parse.spanFrom start) (Parse.spanFrom start) :=
  fun _ _ hAlike hClosed =>
    ⟨congrArg (fun token => start.through token.span)
      hAlike.previous, hAlike, hClosed⟩

theorem accept (kind : TokenKind) :
    Agrees (Parse.accept kind) (Parse.accept kind) :=
  bind (check kind) fun _ =>
    ite (fun _ => bind advance fun _ => pure true)
      fun _ => pure false

theorem expect (kind : TokenKind) :
    Agrees (Parse.expect kind) (Parse.expect kind) :=
  bind (check kind) fun _ =>
    ite (fun _ => advance) fun _ => unexpected

/- What is done with the places themselves is done with places alike. -/
theorem get
    {next follow : Cursor → Parse α}
    (hNext :
      ∀ cursor other, cursor.Alike other →
        Agrees (next cursor) (follow other)) :
    Agrees (MonadState.get >>= next) (MonadState.get >>= follow) :=
  fun cursor other hAlike hClosed =>
    hNext cursor other hAlike cursor other hAlike hClosed

/- A production ends by marking what it gives with a span. -/
theorem spanned (start : Span) (mark : Span → α) :
    Agrees
      (Parse.spanFrom start >>= fun span => Pure.pure (mark span))
      (Parse.spanFrom start >>= fun span => Pure.pure (mark span)) :=
  bind (spanFrom start) fun span => pure (mark span)

end Agrees

end Parse

------------------------------------------------------------
-- Embedded Constants
------------------------------------------------------------

namespace Embedded

open Parse

theorem agrees_unexpected
    {α : Type}
    (kinds : List TokenKind) :
    Agrees (unexpected kinds : Parse α) (unexpected kinds) :=
  fun _ _ _ _ => trivial

theorem agrees_expect (kind : TokenKind) :
    Agrees (expect kind) (expect kind) :=
  .bind .current fun _ =>
    .ite (fun _ => .advance) fun _ => agrees_unexpected _

theorem agrees_stringValue
    (strict : Bool)
    (depth : Nat)
    (token : Token) :
    Agrees (stringValue strict depth token)
      (stringValue strict depth token) := by
  unfold stringValue
  split
  · split
    · exact .pure _
    · exact .throw _
    · exact .tooDeep _
  · exact .pure _

variable {value : Parse Value}
variable (hValue : Agrees value value)

include hValue

theorem agrees_items (fuel : Nat) :
    Agrees (items value fuel) (items value fuel) := by
  induction fuel with
  | zero => exact agrees_unexpected _
  | succ fuel ih =>
      refine .bind hValue fun item => .bind .current fun next => ?_
      split
      · exact .bind .advance fun _ => .bind ih fun _ => .pure _
      · exact .bind .advance fun _ => .pure _
      · exact agrees_unexpected _

theorem agrees_list : Agrees (list value) (list value) := by
  refine .bind .current fun next => ?_
  split
  · exact .bind .advance fun _ => .pure _
  · refine .get fun cursor place hAlike => ?_
    rw [hAlike.fuel]
    exact .bind (agrees_items hValue _) fun _ => .pure _

theorem agrees_fields
    (fuel : Nat)
    (before : Fields Value) :
    Agrees (fields value fuel before)
      (fields value fuel before) := by
  induction fuel generalizing before with
  | zero => exact agrees_unexpected _
  | succ fuel ih =>
      refine .bind (agrees_expect _) fun name => ?_
      refine .bind (agrees_expect _) fun _ => ?_
      refine .bind hValue fun item => .bind .current fun next => ?_
      split
      · exact .bind .advance fun _ => ih _
      · exact .bind .advance fun _ => .pure _
      · exact agrees_unexpected _

theorem agrees_map : Agrees (map value) (map value) := by
  refine .bind .current fun next => ?_
  split
  · exact .bind .advance fun _ => .pure _
  · refine .get fun cursor place hAlike => ?_
    rw [hAlike.fuel]
    exact .bind (agrees_fields hValue _ _) fun _ => .pure _

omit hValue in
theorem agrees_value
    (strict : Bool)
    (depth : Nat) :
    Agrees (Embedded.value strict depth)
      (Embedded.value strict depth) := by
  induction depth with
  | zero => exact .tooDeep _
  | succ depth ih =>
      refine .bind .current fun token => ?_
      split
      · exact .bind .advance fun _ => agrees_list ih
      · exact .bind .advance fun _ => agrees_map ih
      · exact .bind .advance fun _ => .pure _
      · exact .bind .advance fun _ => .pure _
      · exact .bind .advance fun _ => agrees_stringValue _ _ _
      · exact .bind .advance fun _ => .pure _
      · exact .bind .advance fun _ => .pure _
      · exact .bind .advance fun _ => .pure _
      · exact agrees_unexpected _

end Embedded

------------------------------------------------------------
-- Productions
------------------------------------------------------------

namespace Production

open Parse

/-
  Productions agree if their readers of whole expressions do;
  only unary operators ask for expressions of another power.
-/
variable {expression other : ExpressionReader}
variable (hBody : Agrees (expression 0) (other 0))

include hBody

theorem agrees_statement :
    Agrees (statement expression) (statement other) := by
  refine .bind .current fun token => .bind .followingKind fun _ => ?_
  refine .ite (fun _ => ?_) fun _ => hBody
  refine .bind .advance fun _ => .bind .advance fun _ => ?_
  exact .bind hBody fun _ => .spanned _ _

theorem agrees_statements
    (close : TokenKind)
    (fuel : Nat) :
    Agrees (statements expression close fuel)
      (statements other close fuel) := by
  induction fuel with
  | zero => exact .unexpected
  | succ fuel ih =>
      refine .bind (.check _) fun _ => ?_
      refine .ite (fun _ => .pure _) fun _ => ?_
      refine .bind (agrees_statement hBody) fun first => ?_
      have hMore :
          Agrees
            (do return first ::
              (← statements expression close fuel))
            (do return first :: (← statements other close fuel)) :=
        .bind ih fun _ => .pure _
      refine .bind (.accept _) fun _ => .ite (fun _ => hMore) fun _ => ?_
      refine .bind (.check _) fun _ => .ite (fun _ => .pure _) fun _ => ?_
      refine .get fun cursor place hAlike => ?_
      rw [hAlike.previous]
      exact .ite (fun _ => hMore) fun _ => .unexpected

theorem agrees_block :
    Agrees (block expression) (block other) := by
  refine .bind .advance fun _ => .get fun cursor place hAlike => ?_
  rw [hAlike.fuel]
  refine .bind (agrees_statements hBody _ _) fun _ => ?_
  exact .bind (.expect _) fun _ => .spanned _ _

theorem agrees_commaSeparated (fuel : Nat) :
    Agrees (commaSeparated expression fuel)
      (commaSeparated other fuel) := by
  induction fuel with
  | zero => exact .unexpected
  | succ fuel ih =>
      refine .bind hBody fun first => .bind (.accept _) fun _ => ?_
      exact .ite (fun _ => .bind ih fun _ => .pure _) fun _ => .pure _

theorem agrees_array :
    Agrees (array expression) (array other) := by
  refine .bind .advance fun opening => ?_
  have hTail :
      ∀ items : List (Node Span),
        Agrees
          (do
            let _ ← expect .rightBracket
            return Node.array items (← spanFrom opening.span))
          (do
            let _ ← expect .rightBracket
            return Node.array items (← spanFrom opening.span)) :=
    fun _ => .bind (.expect _) fun _ => .spanned _ _
  refine .bind (.check _) fun _ => .ite (fun _ => hTail []) fun _ => ?_
  refine .get fun cursor place hAlike => ?_
  rw [hAlike.fuel]
  exact .bind (agrees_commaSeparated hBody _) hTail

theorem agrees_namedArguments
    (fuel : Nat)
    (before : Fields (Node Span)) :
    Agrees (namedArguments expression fuel before)
      (namedArguments other fuel before) := by
  induction fuel generalizing before with
  | zero => exact .unexpected
  | succ fuel ih =>
      refine .bind (.expect _) fun name => ?_
      have hTail :
          Agrees
            (do
              let _ ← advance
              let after := before.set name.text (← expression 0)
              if ← accept .comma then
                namedArguments expression fuel after
              else
                return after)
            (do
              let _ ← advance
              let after := before.set name.text (← other 0)
              if ← accept .comma then
                namedArguments other fuel after
              else
                return after) := by
        refine .bind .advance fun _ => .bind hBody fun value => ?_
        refine .bind (.accept _) fun _ => ?_
        exact .ite (fun _ => ih _) fun _ => .pure _
      refine .bind (.check _) fun _ => .ite (fun _ => ?_) fun _ => hTail
      refine .bind (.check _) fun _ => ?_
      exact .ite (fun _ => .unexpected) fun _ => hTail

omit hBody in
theorem agrees_namedArgumentAhead :
    Agrees namedArgumentAhead namedArgumentAhead :=
  .bind .followingKind fun _ => .bind .current fun _ => .pure _

theorem agrees_call (name : Text) (start : Span) :
    Agrees (call expression name start)
      (call other name start) := by
  refine .bind .advance fun _ => .bind (.accept _) fun _ => ?_
  refine .ite (fun _ => .spanned _ _) fun _ => ?_
  refine .bind agrees_namedArgumentAhead fun _ => ?_
  refine .ite (fun _ => ?_) fun _ => ?_
  · refine .get fun cursor place hAlike => ?_
    rw [hAlike.fuel]
    refine .bind (agrees_namedArguments hBody _ _) fun _ => ?_
    exact .bind (.expect _) fun _ => .spanned _ _
  · refine .get fun cursor place hAlike => ?_
    rw [hAlike.fuel]
    refine .bind (agrees_commaSeparated hBody _) fun _ => ?_
    exact .bind (.expect _) fun _ => .spanned _ _

omit hBody in
theorem agrees_connectiveAhead (word : Text) :
    Agrees (connectiveAhead word) (connectiveAhead word) :=
  .bind .current fun _ => .bind .followingKind fun _ => .pure _

theorem agrees_cases (fuel : Nat) :
    Agrees (cases expression fuel) (cases other fuel) := by
  induction fuel with
  | zero => exact .unexpected
  | succ fuel ih =>
      have hResult :
          ∀ guard,
            Agrees
              (do
                let _ ← advance
                let result ← expression 0
                let _ ← accept .semicolon
                return .mk guard result ::
                  (← cases expression fuel))
              (do
                let _ ← advance
                let result ← other 0
                let _ ← accept .semicolon
                return .mk guard result ::
                  (← cases other fuel)) := by
        intro guard
        refine .bind .advance fun _ => .bind hBody fun _ => ?_
        exact .bind (.accept _) fun _ => .bind ih fun _ => .pure _
      have hGuard :
          Agrees
            (do
              let guard ← expression 0
              if !(← check .colon) then
                if !(← check .fatArrow) then
                  unexpected
              let _ ← advance
              let result ← expression 0
              let _ ← accept .semicolon
              return .mk guard result ::
                (← cases expression fuel))
            (do
              let guard ← other 0
              if !(← check .colon) then
                if !(← check .fatArrow) then
                  unexpected
              let _ ← advance
              let result ← other 0
              let _ ← accept .semicolon
              return .mk guard result ::
                (← cases other fuel)) := by
        refine .bind hBody fun guard => .bind (.check _) fun _ => ?_
        refine .ite (fun _ => ?_) fun _ => hResult guard
        refine .bind (.check _) fun _ => ?_
        exact .ite (fun _ => .unexpected) fun _ => hResult guard
      refine .bind (.check _) fun _ => .ite (fun _ => .pure _) fun _ => ?_
      refine .bind (agrees_connectiveAhead _) fun _ => ?_
      exact .ite (fun _ => .bind .advance fun _ => hGuard)
        fun _ => hGuard

theorem agrees_switch :
    Agrees (switch expression) (switch other) := by
  refine .bind .advance fun _ => .bind (.expect _) fun _ => ?_
  refine .get fun cursor place hAlike => ?_
  rw [hAlike.fuel]
  refine .bind (agrees_cases hBody _) fun _ => ?_
  exact .bind .advance fun _ => .spanned _ _

omit hBody in
theorem agrees_skipThen : Agrees skipThen skipThen := by
  refine .bind (.check _) fun _ => ?_
  refine .ite (fun _ => .bind .advance fun _ => .pure _) fun _ => ?_
  refine .bind (agrees_connectiveAhead _) fun _ => ?_
  exact .ite (fun _ => .bind .advance fun _ => .pure _) fun _ => .pure _

theorem agrees_branches (fuel : Nat) :
    Agrees (branches expression fuel) (branches other fuel) := by
  induction fuel with
  | zero => exact .unexpected
  | succ fuel ih =>
      refine .bind (.expect _) fun _ => .bind hBody fun _ => ?_
      refine .bind (.expect _) fun _ => .bind agrees_skipThen fun _ => ?_
      refine .bind hBody fun _ => .bind (.accept _) fun _ => ?_
      refine .ite (fun _ => ?_) fun _ => .pure _
      refine .bind (.accept _) fun _ => ?_
      exact .ite (fun _ => .bind ih fun _ => .pure _)
        fun _ => .bind hBody fun _ => .pure _

theorem agrees_ifChain :
    Agrees (ifChain expression) (ifChain other) := by
  refine .bind .advance fun _ => .get fun cursor place hAlike => ?_
  rw [hAlike.fuel]
  exact .bind (agrees_branches hBody _) fun _ => .spanned _ _

theorem agrees_parenthesised :
    Agrees (parenthesised expression) (parenthesised other) :=
  .bind .advance fun _ => .bind hBody fun _ =>
    .bind (.expect _) fun _ => .pure _

theorem agrees_returned :
    Agrees (returned expression) (returned other) :=
  .bind .advance fun _ => .bind hBody fun _ => .spanned _ _

theorem agrees_index (base : Node Span) :
    Agrees (index expression base) (index other base) :=
  .bind .advance fun _ => .bind hBody fun _ =>
    .bind (.expect _) fun _ => .spanned _ _

omit hBody in
theorem agrees_unary
    (op : UnaryOp)
    (hOperand :
      Agrees (expression unaryPower) (other unaryPower)) :
    Agrees (unary expression op) (unary other op) :=
  .bind .advance fun _ => .bind hOperand fun _ => .spanned _ _

omit hBody in
theorem agrees_embedded (strict : Bool) :
    Agrees (embedded strict) (embedded strict) :=
  .bind .advance fun _ =>
    .bind (Embedded.agrees_value _ _) fun _ => .spanned _ _

omit hBody in
theorem agrees_constant (value : Value) :
    Agrees (constant value) (constant value) :=
  .bind .advance fun _ => .pure _

theorem agrees_operand
    (strict : Bool)
    (hOperand :
      Agrees (expression unaryPower) (other unaryPower)) :
    Agrees (operand strict expression)
      (operand strict other) := by
  refine .bind .current fun token => ?_
  cases token.kind with
  | bang => exact agrees_unary _ hOperand
  | minus => exact agrees_unary _ hOperand
  | trueWord => exact agrees_constant _
  | falseWord => exact agrees_constant _
  | nullWord => exact agrees_constant _
  | number => exact agrees_constant _
  | string => exact agrees_constant _
  | identifier => exact .bind .advance fun _ => .pure _
  | leftParen => exact agrees_parenthesised hBody
  | leftBracket => exact agrees_array hBody
  | leftBrace => exact agrees_block hBody
  | «at» => exact agrees_embedded _
  | switchWord => exact agrees_switch hBody
  | ifWord => exact agrees_ifChain hBody
  | returnWord => exact agrees_returned hBody
  | _ => exact .bind (.seek _ _) fun _ => .unexpected

end Production

end ExperimentScript
