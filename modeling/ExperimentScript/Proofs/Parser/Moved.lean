import ExperimentScript.Proofs.Parser.Outcome
import ExperimentScript.Proofs.Script.Moved

/-
  Reading tokens that are moved.

  Reading looks at what tokens are and never at where they
  are: places only go into the marks of trees and into errors.
  So tokens that are moved are read as the tokens themselves
  are, to the same tree or the same error, but for the places.

  Key definitions include:
    * `ExperimentScript.Movable`
    * `ExperimentScript.Cursor.moved`
    * `ExperimentScript.Parse.Moves`

  Main declarations:
    * `ExperimentScript.Parse.Moves.bind`
    * `ExperimentScript.Production.moves_statement`
    * `ExperimentScript.moves_expression`
-/

namespace ExperimentScript

------------------------------------------------------------
-- What Can Be Moved
------------------------------------------------------------

/-
  What steps of reading give can be moved. It is placed when
  its own span is known, as that of every tree with a mark is.
-/
class Movable (α : Type) where
  moved : (Span → Span) → α → α
  Placed : α → Prop

namespace Movable

/- What has no place stays the same. -/
abbrev fixed (α : Type) : Movable α :=
  ⟨fun _ item => item, fun _ => True⟩

instance : Movable Unit := .fixed Unit

instance : Movable Bool := .fixed Bool

instance : Movable TokenKind := .fixed TokenKind

instance : Movable Value := .fixed Value

instance : Movable (List Value) := .fixed (List Value)

instance : Movable (Fields Value) := .fixed (Fields Value)

instance : Movable Span := ⟨fun move span => move span, fun _ => True⟩

instance : Movable Token := ⟨Token.moved, fun _ => True⟩

instance : Movable (Node Span) :=
  ⟨Node.moved, fun node => node.mark?.isSome = true⟩

instance : Movable (List (Node Span)) :=
  ⟨Node.movedAll, fun _ => True⟩

instance : Movable (Fields (Node Span)) :=
  ⟨Node.movedArguments, fun _ => True⟩

instance : Movable (List (Case Span)) :=
  ⟨Node.movedCases, fun _ => True⟩

instance : Movable (List (Branch Span)) :=
  ⟨Node.movedSteps, fun _ => True⟩

end Movable

theorem Token.kind_moved
    (move : Span → Span)
    (token : Token) :
    (Movable.moved move token).kind = token.kind := rfl

------------------------------------------------------------
-- Places Among Moved Tokens
------------------------------------------------------------

namespace Cursor

/- The same place among tokens that are moved. -/
def moved
    (move : Span → Span)
    (cursor : Cursor) :
    Cursor :=
  ⟨cursor.previous.moved move, cursor.current.moved move,
    cursor.ahead.map (Token.moved move), cursor.sought⟩

variable (move : Span → Span) (cursor : Cursor)

theorem next_moved :
    (cursor.moved move).next = cursor.next.moved move := by
  rcases cursor with ⟨previous, current, ahead, sought⟩
  cases ahead <;> rfl

theorem following_moved :
    (cursor.moved move).following =
      cursor.following.moved move := by
  rcases cursor with ⟨previous, current, ahead, sought⟩
  cases ahead <;> rfl

theorem fuel_moved : (cursor.moved move).fuel = cursor.fuel := by
  rw [fuel, fuel, moved, List.length_map]

theorem start_moved (token : Token) (tokens : List Token) :
    Cursor.start ((token :: tokens).map (Token.moved move)) =
      (Cursor.start (token :: tokens)).moved move := rfl

end Cursor

------------------------------------------------------------
-- Steps Over Moved Tokens
------------------------------------------------------------

namespace Parse

open Movable (moved Placed)

variable {α β : Type} [Movable α] [Movable β]
variable {move : Move}

/-
  Over tokens that are moved the second of two steps does what
  the first one does over the tokens themselves.
-/
def Moves
    (move : Move)
    (first second : Parse α) : Prop :=
  ∀ cursor : Cursor,
    match first cursor, second (cursor.moved move.span) with
    | .ok result after, .ok other stop =>
      Placed result ∧
        other = moved move.span result ∧
        stop = after.moved move.span
    | .error error _, .error other _ =>
      other = error.moved move.span
    | _, _ => False

namespace Moves

/- A step gives what can be moved, or fails with an error that can. -/
theorem outcomes
    {first second : Parse α}
    (hMoves : Moves move first second)
    (cursor : Cursor) :
    (∃ result after,
        first cursor = .ok result after ∧
          second (cursor.moved move.span) =
            .ok (moved move.span result)
              (after.moved move.span)) ∨
      ∃ error after stop,
        first cursor = .error error after ∧
          second (cursor.moved move.span) =
            .error (error.moved move.span) stop := by
  have hAt := hMoves cursor
  cases hLeft : first cursor with
  | ok result after =>
      cases hRight : second (cursor.moved move.span) with
      | ok other stop =>
          rw [hLeft, hRight] at hAt
          rcases hAt with ⟨-, rfl, rfl⟩
          exact .inl ⟨result, after, rfl, rfl⟩
      | error error stop =>
          rw [hLeft, hRight] at hAt
          exact hAt.elim
  | error error after =>
      cases hRight : second (cursor.moved move.span) with
      | ok other stop =>
          rw [hLeft, hRight] at hAt
          exact hAt.elim
      | error other stop =>
          rw [hLeft, hRight] at hAt
          change other = error.moved move.span at hAt
          exact .inr ⟨error, after, stop, rfl, by rw [hAt]⟩

/- Steps over moved tokens follow one another as over the tokens. -/
theorem bind
    {first second : Parse β}
    {next follow : β → Parse α}
    (hFirst : Moves move first second)
    (hNext :
      ∀ result, Placed result →
        Moves move (next result)
          (follow (moved move.span result))) :
    Moves move (first >>= next) (second >>= follow) := by
  intro cursor
  have hAt := hFirst cursor
  simp only [Bind.bind, EStateM.bind]
  cases hLeft : first cursor with
  | ok result after =>
      cases hRight : second (cursor.moved move.span) with
      | ok other stop =>
          rw [hLeft, hRight] at hAt
          rcases hAt with ⟨hPlaced, rfl, rfl⟩
          exact hNext result hPlaced after
      | error error stop =>
          rw [hLeft, hRight] at hAt
          exact hAt.elim
  | error error after =>
      cases hRight : second (cursor.moved move.span) with
      | ok other stop =>
          rw [hLeft, hRight] at hAt
          exact hAt.elim
      | error other stop =>
          rw [hLeft, hRight] at hAt
          exact hAt

theorem pure
    {result other : α}
    (hPlaced : Placed result)
    (hOther : other = moved move.span result) :
    Moves move (Pure.pure result) (Pure.pure other) :=
  fun _ => ⟨hPlaced, hOther, rfl⟩

theorem ite
    {condition : Prop}
    [Decidable condition]
    {first second other follow : Parse α}
    (hThen : Moves move first other)
    (hElse : Moves move second follow) :
    Moves move (if condition then first else second)
      (if condition then other else follow) := by
  split
  · exact hThen
  · exact hElse

------------------------------------------------------------
-- Basic Steps
------------------------------------------------------------

theorem unexpected :
    Moves move (Parse.unexpected : Parse α) Parse.unexpected :=
  fun _ => rfl

theorem throw (error : SyntaxError) :
    Moves move (MonadExcept.throw error : Parse α)
      (MonadExcept.throw (error.moved move.span)) :=
  fun _ => rfl

theorem tooDeep (cause : SyntaxCause) :
    Moves move (Parse.tooDeep cause : Parse α)
      (Parse.tooDeep cause) :=
  fun _ => rfl

theorem current : Moves move Parse.current Parse.current :=
  fun _ => ⟨trivial, rfl, rfl⟩

theorem followingKind :
    Moves move Parse.followingKind Parse.followingKind :=
  fun cursor =>
    ⟨trivial,
      (congrArg Token.kind (cursor.following_moved move.span) :
        (cursor.moved move.span).following.kind =
          (cursor.following.moved move.span).kind),
      rfl⟩

theorem advance : Moves move Parse.advance Parse.advance :=
  fun cursor => ⟨trivial, rfl, cursor.next_moved _⟩

theorem seek (kinds : List TokenKind) :
    Moves move (Parse.seek kinds) (Parse.seek kinds) :=
  fun _ => ⟨trivial, rfl, rfl⟩

theorem check (kind : TokenKind) :
    Moves move (Parse.check kind) (Parse.check kind) :=
  fun _ => ⟨trivial, rfl, rfl⟩

/- A span that begins at a moved one ends at a moved token. -/
theorem spanFrom (start : Span) :
    Moves move (Parse.spanFrom start)
      (Parse.spanFrom (move.span start)) :=
  fun _ => ⟨trivial, (move.through _ _).symm, rfl⟩

theorem accept (kind : TokenKind) :
    Moves move (Parse.accept kind) (Parse.accept kind) :=
  bind (check kind) fun _ _ =>
    ite (bind advance fun _ _ => pure trivial rfl)
      (pure trivial rfl)

theorem expect (kind : TokenKind) :
    Moves move (Parse.expect kind) (Parse.expect kind) :=
  bind (check kind) fun _ _ => ite advance unexpected

/- What is done with the place itself is done with the moved place. -/
theorem get
    {next follow : Cursor → Parse α}
    (hNext :
      ∀ cursor : Cursor,
        Moves move (next cursor)
          (follow (cursor.moved move.span))) :
    Moves move (MonadState.get >>= next)
      (MonadState.get >>= follow) :=
  fun cursor => hNext cursor cursor

/- A production ends by marking what it gives with a span. -/
theorem spanned
    {start : Span}
    {mark other : Span → α}
    (hPlaced : ∀ span, Placed (mark span))
    (hOther :
      ∀ span,
        other (move.span span) = moved move.span (mark span)) :
    Moves move
      (Parse.spanFrom start >>= fun span => Pure.pure (mark span))
      (Parse.spanFrom (move.span start) >>= fun span =>
        Pure.pure (other span)) :=
  bind (spanFrom start) fun span _ =>
    pure (hPlaced span) (hOther span)

end Moves

end Parse

------------------------------------------------------------
-- Embedded Constants
------------------------------------------------------------

namespace Embedded

open Parse

variable {move : Move}

theorem moves_unexpected
    {α : Type}
    [Movable α]
    (kinds : List TokenKind) :
    Moves move (unexpected kinds : Parse α) (unexpected kinds) :=
  fun _ => rfl

theorem moves_expect (kind : TokenKind) :
    Moves move (expect kind) (expect kind) :=
  .bind .current fun _ _ => .ite .advance (moves_unexpected _)

theorem moves_stringValue
    (strict : Bool)
    (depth : Nat)
    (token : Token) :
    Moves move (stringValue strict depth token)
      (stringValue strict depth (token.moved move.span)) := by
  rcases token with ⟨kind, text, span, literal⟩
  unfold stringValue Token.moved
  dsimp only
  split
  · split
    · exact .pure trivial rfl
    · exact .throw _
    · exact .tooDeep _
  · exact .pure trivial rfl

variable {value : Parse Value} (hValue : Moves move value value)

include hValue

theorem moves_items (fuel : Nat) :
    Moves move (items value fuel) (items value fuel) := by
  induction fuel with
  | zero => exact moves_unexpected _
  | succ fuel ih =>
      refine .bind hValue fun item _ => .bind .current fun next _ => ?_
      rw [Token.kind_moved]
      split
      · exact .bind .advance fun _ _ =>
          .bind ih fun _ _ => .pure trivial rfl
      · exact .bind .advance fun _ _ => .pure trivial rfl
      · exact moves_unexpected _

theorem moves_list : Moves move (list value) (list value) := by
  refine .bind .current fun next _ => ?_
  rw [Token.kind_moved]
  split
  · exact .bind .advance fun _ _ => .pure trivial rfl
  · refine .get fun cursor => ?_
    rw [Cursor.fuel_moved]
    exact .bind (moves_items hValue _) fun _ _ => .pure trivial rfl

theorem moves_fields
    (fuel : Nat)
    (before : Fields Value) :
    Moves move (fields value fuel before)
      (fields value fuel before) := by
  induction fuel generalizing before with
  | zero => exact moves_unexpected _
  | succ fuel ih =>
      refine .bind (moves_expect _) fun name _ => ?_
      refine .bind (moves_expect _) fun _ _ => ?_
      refine .bind hValue fun item _ => .bind .current fun next _ => ?_
      rw [Token.kind_moved]
      split
      · exact .bind .advance fun _ _ => ih _
      · exact .bind .advance fun _ _ => .pure trivial rfl
      · exact moves_unexpected _

theorem moves_map : Moves move (map value) (map value) := by
  refine .bind .current fun next _ => ?_
  rw [Token.kind_moved]
  split
  · exact .bind .advance fun _ _ => .pure trivial rfl
  · refine .get fun cursor => ?_
    rw [Cursor.fuel_moved]
    exact .bind (moves_fields hValue _ _) fun _ _ =>
      .pure trivial rfl

omit hValue in
theorem moves_value
    (strict : Bool)
    (depth : Nat) :
    Moves move (Embedded.value strict depth)
      (Embedded.value strict depth) := by
  induction depth with
  | zero => exact .tooDeep _
  | succ depth ih =>
      refine .bind .current fun token _ => ?_
      rw [Token.kind_moved]
      split
      · exact .bind .advance fun _ _ => moves_list ih
      · exact .bind .advance fun _ _ => moves_map ih
      · exact .bind .advance fun _ _ => .pure trivial rfl
      · exact .bind .advance fun _ _ => .pure trivial rfl
      · exact .bind .advance fun _ _ => moves_stringValue _ _ _
      · exact .bind .advance fun _ _ => .pure trivial rfl
      · exact .bind .advance fun _ _ => .pure trivial rfl
      · exact .bind .advance fun _ _ => .pure trivial rfl
      · exact moves_unexpected _

end Embedded

------------------------------------------------------------
-- Productions
------------------------------------------------------------

namespace Production

open Parse

variable {move : Move}
variable {expression : ExpressionReader}
variable (hBody : Moves move (expression 0) (expression 0))

include hBody

theorem moves_statement :
    Moves move (statement expression) (statement expression) := by
  refine .bind .current fun token _ =>
    .bind .followingKind fun _ _ => ?_
  refine .ite ?_ hBody
  refine .bind .advance fun _ _ => .bind .advance fun _ _ => ?_
  exact .bind hBody fun _ _ => .spanned (fun _ => rfl) fun _ => rfl

theorem moves_statements
    (close : TokenKind)
    (fuel : Nat) :
    Moves move (statements expression close fuel)
      (statements expression close fuel) := by
  induction fuel with
  | zero => exact .unexpected
  | succ fuel ih =>
      refine .bind (.check _) fun _ _ => ?_
      refine .ite (.pure trivial rfl) ?_
      refine .bind (moves_statement hBody) fun first _ => ?_
      have hMore :
          Moves move
            (do return first ::
              (← statements expression close fuel))
            (do return Node.moved move.span first ::
              (← statements expression close fuel)) :=
        .bind ih fun _ _ => .pure trivial rfl
      refine .bind (.accept _) fun _ _ => .ite hMore ?_
      refine .bind (.check _) fun _ _ => .ite (.pure trivial rfl) ?_
      exact .get fun cursor => .ite hMore .unexpected

theorem moves_block :
    Moves move (block expression) (block expression) := by
  refine .bind .advance fun _ _ => .get fun cursor => ?_
  rw [Cursor.fuel_moved]
  refine .bind (moves_statements hBody _ _) fun _ _ => ?_
  exact .bind (.expect _) fun _ _ =>
    .spanned (fun _ => rfl) fun _ => rfl

theorem moves_commaSeparated (fuel : Nat) :
    Moves move (commaSeparated expression fuel)
      (commaSeparated expression fuel) := by
  induction fuel with
  | zero => exact .unexpected
  | succ fuel ih =>
      refine .bind hBody fun first _ => .bind (.accept _) fun _ _ => ?_
      exact .ite (.bind ih fun _ _ => .pure trivial rfl)
        (.pure trivial rfl)

theorem moves_array :
    Moves move (array expression) (array expression) := by
  refine .bind .advance fun opening _ => ?_
  have hTail :
      ∀ items : List (Node Span),
        Moves move
          (do
            let _ ← expect .rightBracket
            return Node.array items (← spanFrom opening.span))
          (do
            let _ ← expect .rightBracket
            return Node.array (Node.movedAll move.span items)
              (← spanFrom (move.span opening.span))) :=
    fun _ => .bind (.expect _) fun _ _ =>
      .spanned (fun _ => rfl) fun _ => rfl
  refine .bind (.check _) fun _ _ => .ite (hTail []) ?_
  refine .get fun cursor => ?_
  rw [Cursor.fuel_moved]
  exact .bind (moves_commaSeparated hBody _) fun items _ => hTail items

theorem moves_namedArguments
    (fuel : Nat)
    (before : Fields (Node Span)) :
    Moves move (namedArguments expression fuel before)
      (namedArguments expression fuel
        (Node.movedArguments move.span before)) := by
  induction fuel generalizing before with
  | zero => exact .unexpected
  | succ fuel ih =>
      refine .bind (.expect _) fun name _ => ?_
      have hTail :
          Moves move
            (do
              let _ ← advance
              let after := before.set name.text (← expression 0)
              if ← accept .comma then
                namedArguments expression fuel after
              else
                return after)
            (do
              let _ ← advance
              let after :=
                Fields.set (Node.movedArguments move.span before)
                  name.text (← expression 0)
              if ← accept .comma then
                namedArguments expression fuel after
              else
                return after) := by
        refine .bind .advance fun _ _ => .bind hBody fun value _ => ?_
        have hSet :=
          Node.movedArguments_set move.span before name.text value
        refine .bind (.accept _) fun _ _ => ?_
        refine .ite ?_ (.pure trivial hSet.symm)
        exact hSet ▸ ih _
      refine .bind (.check _) fun _ _ => .ite ?_ hTail
      exact .bind (.check _) fun _ _ => .ite .unexpected hTail

omit hBody in
theorem moves_namedArgumentAhead :
    Moves move namedArgumentAhead namedArgumentAhead :=
  .bind .followingKind fun _ _ =>
    .bind .current fun _ _ => .pure trivial rfl

theorem moves_call (name : Text) (start : Span) :
    Moves move (call expression name start)
      (call expression name (move.span start)) := by
  refine .bind .advance fun _ _ => .bind (.accept _) fun _ _ => ?_
  refine .ite (.spanned (fun _ => rfl) fun _ => rfl) ?_
  refine .bind moves_namedArgumentAhead fun _ _ => .ite ?_ ?_
  · refine .get fun cursor => ?_
    rw [Cursor.fuel_moved]
    refine .bind (moves_namedArguments hBody _ _) fun _ _ => ?_
    exact .bind (.expect _) fun _ _ =>
      .spanned (fun _ => rfl) fun _ => rfl
  · refine .get fun cursor => ?_
    rw [Cursor.fuel_moved]
    refine .bind (moves_commaSeparated hBody _) fun _ _ => ?_
    exact .bind (.expect _) fun _ _ =>
      .spanned (fun _ => rfl) fun _ => rfl

omit hBody in
theorem moves_connectiveAhead (word : Text) :
    Moves move (connectiveAhead word) (connectiveAhead word) :=
  .bind .current fun _ _ =>
    .bind .followingKind fun _ _ => .pure trivial rfl

theorem moves_cases (fuel : Nat) :
    Moves move (cases expression fuel) (cases expression fuel) := by
  induction fuel with
  | zero => exact .unexpected
  | succ fuel ih =>
      have hResult :
          ∀ guard,
            Moves move
              (do
                let _ ← advance
                let result ← expression 0
                let _ ← accept .semicolon
                return .mk guard result ::
                  (← cases expression fuel))
              (do
                let _ ← advance
                let result ← expression 0
                let _ ← accept .semicolon
                return .mk (Node.moved move.span guard) result ::
                  (← cases expression fuel)) := by
        intro guard
        refine .bind .advance fun _ _ => .bind hBody fun _ _ => ?_
        exact .bind (.accept _) fun _ _ =>
          .bind ih fun _ _ => .pure trivial rfl
      have hGuard :
          Moves move
            (do
              let guard ← expression 0
              if !(← check .colon) then
                if !(← check .fatArrow) then
                  unexpected
              let _ ← advance
              let result ← expression 0
              let _ ← accept .semicolon
              return .mk guard result ::
                (← cases expression fuel))
            (do
              let guard ← expression 0
              if !(← check .colon) then
                if !(← check .fatArrow) then
                  unexpected
              let _ ← advance
              let result ← expression 0
              let _ ← accept .semicolon
              return .mk guard result ::
                (← cases expression fuel)) := by
        refine .bind hBody fun guard _ => .bind (.check _) fun _ _ => ?_
        refine .ite ?_ (hResult guard)
        exact .bind (.check _) fun _ _ =>
          .ite .unexpected (hResult guard)
      refine .bind (.check _) fun _ _ => .ite (.pure trivial rfl) ?_
      refine .bind (moves_connectiveAhead _) fun _ _ => ?_
      exact .ite (.bind .advance fun _ _ => hGuard) hGuard

theorem moves_switch :
    Moves move (switch expression) (switch expression) := by
  refine .bind .advance fun _ _ => .bind (.expect _) fun _ _ => ?_
  refine .get fun cursor => ?_
  rw [Cursor.fuel_moved]
  refine .bind (moves_cases hBody _) fun _ _ => ?_
  exact .bind .advance fun _ _ =>
    .spanned (fun _ => rfl) fun _ => rfl

omit hBody in
theorem moves_skipThen : Moves move skipThen skipThen := by
  have hTake :
      Moves move (do let _ ← advance) (do let _ ← advance) :=
    .bind .advance fun _ _ => .pure trivial rfl
  refine .bind (.check _) fun _ _ => .ite hTake ?_
  refine .bind (moves_connectiveAhead _) fun _ _ => ?_
  exact .ite hTake (.pure trivial rfl)

theorem moves_branches (fuel : Nat) :
    Moves move (branches expression fuel)
      (branches expression fuel) := by
  induction fuel with
  | zero => exact .unexpected
  | succ fuel ih =>
      refine .bind (.expect _) fun _ _ => .bind hBody fun _ _ => ?_
      refine .bind (.expect _) fun _ _ => .bind moves_skipThen fun _ _ => ?_
      refine .bind hBody fun _ _ => .bind (.accept _) fun _ _ => ?_
      refine .ite ?_ (.pure trivial rfl)
      refine .bind (.accept _) fun _ _ => ?_
      exact .ite (.bind ih fun _ _ => .pure trivial rfl)
        (.bind hBody fun _ _ => .pure trivial rfl)

theorem moves_ifChain :
    Moves move (ifChain expression) (ifChain expression) := by
  refine .bind .advance fun _ _ => .get fun cursor => ?_
  rw [Cursor.fuel_moved]
  exact .bind (moves_branches hBody _) fun _ _ =>
    .spanned (fun _ => rfl) fun _ => rfl

theorem moves_parenthesised :
    Moves move (parenthesised expression)
      (parenthesised expression) :=
  .bind .advance fun _ _ => .bind hBody fun _ hPlaced =>
    .bind (.expect _) fun _ _ => .pure hPlaced rfl

theorem moves_returned :
    Moves move (returned expression) (returned expression) :=
  .bind .advance fun _ _ => .bind hBody fun _ _ =>
    .spanned (fun _ => rfl) fun _ => rfl

/- An index begins where its base does, which has a mark. -/
theorem moves_index
    {base : Node Span}
    (hBase : base.mark?.isSome = true) :
    Moves move (index expression base)
      (index expression (base.moved move.span)) := by
  refine .bind .advance fun _ _ => .bind hBody fun _ _ => ?_
  refine .bind (.expect _) fun _ _ => ?_
  rw [Node.span_moved move.span hBase]
  exact .spanned (fun _ => rfl) fun _ => rfl

omit hBody in
theorem moves_unary
    (op : UnaryOp)
    (hOperand :
      Moves move (expression unaryPower) (expression unaryPower)) :
    Moves move (unary expression op) (unary expression op) :=
  .bind .advance fun _ _ => .bind hOperand fun _ _ =>
    .spanned (fun _ => rfl) fun _ => rfl

omit hBody in
theorem moves_embedded (strict : Bool) :
    Moves move (embedded strict) (embedded strict) :=
  .bind .advance fun _ _ =>
    .bind (Embedded.moves_value _ _) fun _ _ =>
      .spanned (fun _ => rfl) fun _ => rfl

omit hBody in
theorem moves_constant (value : Value) :
    Moves move (constant value) (constant value) :=
  .bind .advance fun _ _ => .pure rfl rfl

theorem moves_operand
    (strict : Bool)
    (hOperand :
      Moves move (expression unaryPower) (expression unaryPower)) :
    Moves move (operand strict expression)
      (operand strict expression) := by
  refine .bind .current fun token _ => ?_
  rw [Token.kind_moved]
  cases token.kind with
  | bang => exact moves_unary _ hOperand
  | minus => exact moves_unary _ hOperand
  | trueWord => exact moves_constant _
  | falseWord => exact moves_constant _
  | nullWord => exact moves_constant _
  | number => exact moves_constant _
  | string => exact moves_constant _
  | identifier => exact .bind .advance fun _ _ => .pure rfl rfl
  | leftParen => exact moves_parenthesised hBody
  | leftBracket => exact moves_array hBody
  | leftBrace => exact moves_block hBody
  | «at» => exact moves_embedded _
  | switchWord => exact moves_switch hBody
  | ifWord => exact moves_ifChain hBody
  | returnWord => exact moves_returned hBody
  | _ => exact .bind (.seek _) fun _ _ => .unexpected

omit hBody in
/- The same kinds can continue a node wherever it is. -/
theorem continuations_moved (node : Node Span) :
    continuations (node.moved move.span) = continuations node := by
  rw [continuations, continuations, Node.callee?_moved,
    Option.isSome_map]

omit hBody in
/-
  At an operator that takes the chain as its left side, the
  right side is read and reading goes on with both.
-/
theorem moves_operation
    {next : Chain → Parse (Node Span)}
    {chain : Chain}
    (hReader :
      ∀ power, Moves move (expression power) (expression power))
    (power : Nat)
    (hNext :
      ∀ chain : Chain,
        chain.node.mark?.isSome = true →
          Moves move (next chain) (next (chain.moved move.span)))
    (hChain : chain.node.mark?.isSome = true)
    (kind : TokenKind) :
    Moves move
      (match kind.power? with
        | none => return chain.node
        | some (leftPower, rightPower) =>
          if leftPower < power then
            return chain.node
          else do
            let _ ← advance
            let right ← expression rightPower
            next (chain.combine kind right))
      (match kind.power? with
        | none => return chain.node.moved move.span
        | some (leftPower, rightPower) =>
          if leftPower < power then
            return chain.node.moved move.span
          else do
            let _ ← advance
            let right ← expression rightPower
            next ((chain.moved move.span).combine kind right)) := by
  cases kind.power? with
  | none => exact .pure hChain rfl
  | some powers =>
      refine .ite (.pure hChain rfl) ?_
      refine .bind .advance fun _ _ => ?_
      refine .bind (hReader _) fun right hRight => ?_
      have hCombine :=
        Chain.combine_moved chain move hChain hRight kind
      exact hCombine ▸
        hNext _ (Chain.isSome_mark?_combine chain kind right)

omit hBody in
theorem moves_operators
    (hReader :
      ∀ power, Moves move (expression power) (expression power))
    (power fuel : Nat)
    {chain : Chain}
    (hChain : chain.node.mark?.isSome = true) :
    Moves move (operators expression power fuel chain)
      (operators expression power fuel (chain.moved move.span)) := by
  induction fuel generalizing chain with
  | zero => exact .unexpected
  | succ fuel ih =>
      have hNode :
          (chain.moved move.span).node = chain.node.moved move.span :=
        rfl
      rw [operators, operators, hNode, continuations_moved,
        Node.callee?_moved]
      refine .bind (.seek _) fun _ _ => .bind .current fun token _ => ?_
      rw [Token.kind_moved]
      generalize token.kind = kind
      have hTaken :=
        moves_operation hReader power (fun _ => ih) hChain kind
      cases hCallee : callee? chain.node with
      | none =>
          cases kind
          case leftBracket =>
            refine .ite (.pure hChain rfl) ?_
            exact .bind (moves_index (hReader 0) hChain)
              fun _ hPlaced => ih hPlaced
          all_goals exact hTaken
      | some callee =>
          cases kind
          case leftBracket =>
            refine .ite (.pure hChain rfl) ?_
            exact .bind (moves_index (hReader 0) hChain)
              fun _ hPlaced => ih hPlaced
          case leftParen =>
            refine .ite (.pure hChain rfl) ?_
            exact .bind (moves_call (hReader 0) _ _)
              fun _ hPlaced => ih hPlaced
          all_goals exact hTaken

end Production

/- Moved tokens are read as an expression that is moved. -/
theorem moves_expression
    {move : Move}
    (strict : Bool)
    (depth power : Nat) :
    Parse.Moves move (expression strict depth power)
      (expression strict depth power) := by
  induction depth generalizing power with
  | zero => exact .tooDeep _
  | succ depth ih =>
      refine .bind
        (Production.moves_operand (ih 0) strict (ih unaryPower))
        fun first hFirst => ?_
      refine .get fun cursor => ?_
      rw [Cursor.fuel_moved]
      exact Production.moves_operators (fun power => ih power) power _
        hFirst

------------------------------------------------------------
-- Scripts
------------------------------------------------------------

/- The statements that are read from a place to the end of a script. -/
def topStatements
    (strict : Bool)
    (fuel : Nat) :
    Parse (List (Node Span)) :=
  Production.statements (expression strict maxDepth) .endOfInput fuel

theorem moves_topStatements
    {move : Move}
    (strict : Bool)
    (fuel : Nat) :
    Parse.Moves move (topStatements strict fuel)
      (topStatements strict fuel) :=
  Production.moves_statements (moves_expression strict _ 0) _ fuel

/- What a step gives and the token that it leaves, if it does not fail. -/
def Parse.ending
    {α : Type}
    (step : Parse α)
    (cursor : Cursor) :
    Except SyntaxError (α × Token) :=
  match step cursor with
  | .ok result after => .ok (result, after.current)
  | .error error _ => .error error

/- The statements of a script and the token that marks its end. -/
def scriptParts
    (strict : Bool)
    (tokens : List Token) :
    Except SyntaxError (List (Node Span) × Token) :=
  (topStatements strict (Cursor.start tokens).fuel).ending
    (Cursor.start tokens)

/- The tree of a script holds its statements. -/
theorem parseTokens_eq
    (strict : Bool)
    (tokens : List Token) :
    parseTokens strict tokens =
      match scriptParts strict tokens with
      | .ok (nodes, close) =>
        .ok (.sequence nodes ⟨.start, close.span.last⟩)
      | .error error => .error error := by
  have hScript (cursor : Cursor) :
      script strict cursor =
        (topStatements strict cursor.fuel >>= fun nodes =>
          Parse.current >>= fun token =>
            pure (Node.sequence nodes ⟨.start, token.span.last⟩))
          cursor := rfl
  rw [parseTokens, EStateM.run, hScript, scriptParts, Parse.ending]
  simp only [Bind.bind, EStateM.bind]
  cases
    topStatements strict (Cursor.start tokens).fuel
      (Cursor.start tokens) <;> rfl

/- A script of moved tokens has the statements moved, or its error. -/
theorem scriptParts_moved
    (move : Move)
    (strict : Bool)
    {tokens : List Token}
    (hTokens : tokens ≠ []) :
    scriptParts strict (tokens.map (Token.moved move.span)) =
      match scriptParts strict tokens with
      | .ok (nodes, close) =>
        .ok (Node.movedAll move.span nodes, close.moved move.span)
      | .error error => .error (error.moved move.span) := by
  rcases List.exists_cons_of_ne_nil hTokens with ⟨token, rest, rfl⟩
  have hMoves :
      Parse.Moves move
        (topStatements strict (Cursor.start (token :: rest)).fuel)
        (topStatements strict (Cursor.start (token :: rest)).fuel) :=
    moves_topStatements strict _
  rw [scriptParts, scriptParts, Cursor.start_moved, Cursor.fuel_moved,
    Parse.ending, Parse.ending]
  rcases hMoves.outcomes (Cursor.start (token :: rest)) with
    ⟨nodes, after, hFirst, hSecond⟩ |
      ⟨error, after, stop, hFirst, hSecond⟩
  · rw [hFirst, hSecond]
    rfl
  · rw [hFirst, hSecond]

end ExperimentScript
