import ExperimentScript.Proofs.Parser.Agree
import ExperimentScript.Proofs.Parser.Choice
import ExperimentScript.Proofs.Parser.Layered

/-
  Reading only goes forward.

  A step is `Forward` if it never goes back: it ends among the
  tokens from its place on, and an error is found where it
  ends or is about the string just before. The statement is
  closed under every way in which productions put steps
  together, so that for a production it is found by inference.
  Where a production takes the token at its place, it ends
  beyond it.

  The limit of nesting is set aside: an error that only tells
  that it was hit may be found anywhere.

  Key definitions include:
    * `ExperimentScript.Cursor.Blames`
    * `ExperimentScript.Parse.Beyond`
    * `ExperimentScript.Parse.Forward`

  Main declarations:
    * `ExperimentScript.Parse.Beyond.bind`
    * `ExperimentScript.beyond_expression`
    * `ExperimentScript.startsOperand_of_expression`
-/

namespace ExperimentScript

------------------------------------------------------------
-- Places
------------------------------------------------------------

namespace Cursor

variable {start cursor stop : Cursor}

/-
  An error is found at the place where reading stops, or it is
  about the string just before, which is no JSON.
-/
def Blames
    (start : Cursor)
    (error : SyntaxError)
    (stop : Cursor) : Prop :=
  (error.cause ≠ .notJson ∧ error.found = stop.current) ∨
    (error.cause = .notJson ∧ error.found.kind = .string ∧
      error.found :: stop.rest <:+ start.rest)

theorem Blames.mono
    {error : SyntaxError}
    (hBlames : cursor.Blames error stop)
    (hRest : cursor.rest <:+ start.rest) :
    start.Blames error stop :=
  hBlames.imp_right fun hString =>
    ⟨hString.1, hString.2.1, hString.2.2.trans hRest⟩

/-
  Reading that begins at a place stops at or after it, where
  its error is found if there is one, or it hits the limit of
  nesting.
-/
def Reaches
    (place : Cursor)
    (error : Option SyntaxError)
    (stop : Cursor) : Prop :=
  match error with
  | none => stop.rest <:+ place.rest
  | some error =>
    error.isDepthLimit = true ∨
      (stop.rest <:+ place.rest ∧ place.Blames error stop)

/- Where only the end is left, no string is blamed. -/
theorem Blames.not_notJson
    {error : SyntaxError}
    (hBlames : start.Blames error stop)
    (hFuel : start.fuel ≤ 1) :
    error.cause ≠ .notJson := by
  rcases hBlames with hPlain | ⟨-, -, hString⟩
  · exact hPlain.1
  · have hLength := hString.length_le
    have hStop := stop.fuel_pos
    rw [List.length_cons, length_rest, length_rest] at hLength
    omega

/- Every place among closed tokens is closed. -/
theorem Closed.of_suffix
    (hClosed : start.Closed)
    (hRest : cursor.rest <:+ start.rest) :
    cursor.Closed := by
  rcases hClosed with ⟨tokens, close, hTokens, hClose, hOthers⟩
  rcases hRest with ⟨front, hFront⟩
  rcases List.eq_nil_or_concat cursor.rest with
    hNone | ⟨inner, last, hInner⟩
  · exact absurd hNone cursor.rest_ne_nil
  · rw [List.concat_eq_append] at hInner
    rw [hInner, hTokens, ← List.append_assoc] at hFront
    rcases List.append_inj' hFront rfl with ⟨rfl, hLast⟩
    cases hLast
    exact
      ⟨inner, close, hInner, hClose, fun token hMem =>
        hOthers token (List.mem_append_right _ hMem)⟩

/- A token that does not mark the end is followed by another one. -/
theorem Closed.rest_eq
    (hClosed : cursor.Closed)
    (hKind : cursor.current.kind ≠ .endOfInput) :
    cursor.rest = cursor.current :: cursor.next.rest := by
  have hAhead := mt hClosed.kind_eq_iff.mpr hKind
  cases hTokens : cursor.ahead with
  | nil => exact absurd hTokens hAhead
  | cons token tokens => simp only [rest, Cursor.next, hTokens]

/- The token that follows is the one at the next place. -/
theorem Closed.current_next
    (hClosed : cursor.Closed)
    (hKind : cursor.current.kind ≠ .endOfInput) :
    cursor.next.current = cursor.following := by
  have hAhead := mt hClosed.kind_eq_iff.mpr hKind
  cases hTokens : cursor.ahead with
  | nil => exact absurd hTokens hAhead
  | cons token tokens => simp [Cursor.next, following, hTokens]

theorem fuel_le_of_suffix
    (hRest : cursor.rest <:+ start.rest) :
    cursor.fuel ≤ start.fuel := by
  have hLength := hRest.length_le
  rwa [length_rest, length_rest] at hLength

theorem fuel_next_le (cursor : Cursor) :
    cursor.next.fuel ≤ cursor.fuel :=
  fuel_le_of_suffix cursor.rest_next_suffix

end Cursor

------------------------------------------------------------
-- Going Forward
------------------------------------------------------------

namespace Parse

variable {α β : Type}

/-
  From a cursor a step ends at or after a given place, where
  its errors are found, if it does not hit the limit of
  nesting.
-/
def Beyond
    (step : Parse α)
    (cursor place : Cursor) : Prop :=
  match step cursor with
  | .ok _ after => place.Reaches none after
  | .error error after => place.Reaches (some error) after

/- A step that never goes back. -/
class Forward (step : Parse α) : Prop where
  beyond : ∀ cursor, cursor.Closed → step.Beyond cursor cursor

namespace Beyond

variable {step : Parse α} {cursor place after : Cursor}

theorem of_ok
    {result : α}
    (hStep : step.Beyond cursor place)
    (hOk : step cursor = .ok result after) :
    after.rest <:+ place.rest := by
  rwa [Beyond, hOk] at hStep

theorem of_error
    {error : SyntaxError}
    (hStep : step.Beyond cursor place)
    (hError : step cursor = .error error after) :
    error.isDepthLimit = true ∨
      (after.rest <:+ place.rest ∧ place.Blames error after) := by
  rwa [Beyond, hError] at hStep

theorem fuel_le
    {result : α}
    (hStep : step.Beyond cursor place)
    (hOk : step cursor = .ok result after) :
    after.fuel ≤ place.fuel :=
  Cursor.fuel_le_of_suffix (hStep.of_ok hOk)

theorem of_eq
    {other : Parse α}
    {start : Cursor}
    (hStep : step.Beyond cursor place)
    (hSame : other start = step cursor) :
    other.Beyond start place := by
  rwa [Beyond, hSame]

theorem mono
    {earlier : Cursor}
    (hStep : step.Beyond cursor place)
    (hRest : place.rest <:+ earlier.rest) :
    step.Beyond cursor earlier := by
  unfold Beyond at hStep ⊢
  split
  · rename_i hOk
    rw [hOk] at hStep
    exact hStep.trans hRest
  · rename_i hError
    rw [hError] at hStep
    exact hStep.imp_right fun hFound =>
      ⟨hFound.1.trans hRest, hFound.2.mono hRest⟩

theorem bind
    {first : Parse β}
    {next : β → Parse α}
    [hNext : ∀ result, Forward (next result)]
    (hFirst : first.Beyond cursor place)
    (hClosed : place.Closed) :
    (first >>= next).Beyond cursor place := by
  unfold Beyond at hFirst
  cases hStep : first cursor with
  | error error after =>
      rw [hStep] at hFirst
      rw [Beyond, bind_of_error hStep]
      exact hFirst
  | ok result after =>
      rw [hStep] at hFirst
      have hAfter :=
        (hNext result).beyond after (hClosed.of_suffix hFirst)
      exact (hAfter.mono hFirst).of_eq (bind_of_ok hStep next)

end Beyond

theorem beyond_current
    {next : Token → Parse α}
    {cursor place : Cursor}
    (hNext : (next cursor.current).Beyond cursor place) :
    (current >>= next).Beyond cursor place :=
  hNext.of_eq (current_bind_apply cursor next)

namespace Forward

instance {first : Parse β} {next : β → Parse α}
    [hFirst : Forward first] [∀ result, Forward (next result)] :
    Forward (first >>= next) :=
  ⟨fun cursor hClosed =>
    (hFirst.beyond cursor hClosed).bind hClosed⟩

instance (condition : Prop) [Decidable condition]
    {first second : Parse α}
    [hFirst : Forward first] [hSecond : Forward second] :
    Forward (if condition then first else second) := by
  split
  · exact hFirst
  · exact hSecond

instance (result : α) : Forward (Pure.pure result) :=
  ⟨fun _ _ => List.suffix_refl _⟩

instance : Forward get :=
  ⟨fun _ _ => List.suffix_refl _⟩

instance : Forward current :=
  ⟨fun _ _ => List.suffix_refl _⟩

instance : Forward followingKind :=
  ⟨fun _ _ => List.suffix_refl _⟩

instance (kinds : List TokenKind) : Forward (seek kinds) :=
  ⟨fun _ _ => List.suffix_refl _⟩

instance (kind : TokenKind) : Forward (check kind) :=
  ⟨fun _ _ => List.suffix_refl _⟩

instance (start : Span) : Forward (spanFrom start) :=
  ⟨fun _ _ => List.suffix_refl _⟩

instance : Forward advance :=
  ⟨fun cursor _ => cursor.rest_next_suffix⟩

instance : Forward (unexpected : Parse α) :=
  ⟨fun _ _ => .inr ⟨List.suffix_refl _, .inl ⟨nofun, rfl⟩⟩⟩

instance : Forward (tooDeep .nestedTooDeeply : Parse α) :=
  ⟨fun _ _ => .inl rfl⟩

instance : Forward (tooDeep .literalNestedTooDeeply : Parse α) :=
  ⟨fun _ _ => .inl rfl⟩

instance (kind : TokenKind) : Forward (accept kind) := by
  unfold accept
  infer_instance

instance (kind : TokenKind) : Forward (expect kind) := by
  unfold expect
  infer_instance

end Forward

/- A step that begins by taking a token ends beyond it. -/
theorem beyond_advance
    {next : Token → Parse α}
    [hNext : ∀ token, Forward (next token)]
    {cursor : Cursor}
    (hClosed : cursor.Closed) :
    (advance >>= next).Beyond cursor cursor.next :=
  ((hNext cursor.current).beyond cursor.next hClosed.next).of_eq
    (advance_bind_apply cursor next)

/- A choice that takes the token at its place ends beyond it. -/
theorem beyond_choice
    {takes : TokenKind → Bool}
    {taken : Token → Parse α}
    {other : Parse α}
    [hTaken : ∀ token, Forward (taken token)]
    {cursor : Cursor}
    (hClosed : cursor.Closed)
    (hTakes : takes cursor.current.kind = true) :
    (choice takes taken other).Beyond cursor cursor.next :=
  ((hTaken cursor.current).beyond cursor.next hClosed.next).of_eq
    (choice_of_takes hTakes)

theorem beyond_test
    {kind : TokenKind}
    {taken : Token → Parse α}
    {other : Parse α}
    [hTaken : ∀ token, Forward (taken token)]
    {cursor : Cursor}
    (hClosed : cursor.Closed)
    (hKind : cursor.current.kind = kind) :
    (test kind taken other).Beyond cursor cursor.next :=
  ((hTaken cursor.current).beyond cursor.next hClosed.next).of_eq
    (test_of_eq hKind)

namespace Forward

variable {taken : Token → Parse α} {other : Parse α}
variable [∀ token, Forward (taken token)] [Forward other]

instance (takes : TokenKind → Bool) :
    Forward (choice takes taken other) := by
  unfold choice
  infer_instance

instance (kind : TokenKind) : Forward (test kind taken other) := by
  unfold test
  infer_instance

instance (kind another : TokenKind) :
    Forward (either kind another other) := by
  unfold either
  infer_instance

instance (kind : TokenKind) : Forward (Parse.optional kind other) := by
  unfold Parse.optional
  infer_instance

instance (ahead : Token → TokenKind → Bool) :
    Forward (lookahead ahead taken other) := by
  unfold lookahead
  infer_instance

end Forward

end Parse

------------------------------------------------------------
-- Embedded Constants
------------------------------------------------------------

namespace Embedded

open Parse

instance {α : Type} (kinds : List TokenKind) :
    Forward (unexpected kinds : Parse α) :=
  ⟨fun _ _ => .inr ⟨List.suffix_refl _, .inl ⟨nofun, rfl⟩⟩⟩

instance {α : Type} (kinds : List TokenKind)
    (taken : Token → Parse α) [∀ token, Forward (taken token)] :
    Forward (oneOf kinds taken) := by
  unfold oneOf
  infer_instance

section Parts

variable (value : Parse Value) [hValue : Forward value]

include hValue

theorem forward_items (fuel : Nat) :
    Forward (items value fuel) := by
  induction fuel with
  | zero =>
      unfold items
      infer_instance
  | succ fuel ih =>
      rw [items_succ]
      infer_instance

instance (fuel : Nat) : Forward (items value fuel) :=
  forward_items value fuel

instance : Forward (list value) := by
  rw [list_eq]
  infer_instance

theorem forward_fields
    (fuel : Nat)
    (earlier : Fields Value) :
    Forward (fields value fuel earlier) := by
  induction fuel generalizing earlier with
  | zero =>
      unfold fields
      infer_instance
  | succ fuel ih =>
      rw [fields_succ]
      infer_instance

instance (fuel : Nat) (earlier : Fields Value) :
    Forward (fields value fuel earlier) :=
  forward_fields value fuel earlier

instance : Forward (map value) := by
  rw [map_eq]
  infer_instance

end Parts

/-
  What a string stands for is its text, or what the text is as
  JSON in strict reading, where it may be none or nest too deep.
-/
theorem stringValue_cases
    (strict : Bool)
    (depth : Nat)
    (token : Token) :
    (∃ value, stringValue strict depth token = pure value) ∨
      (strict = true ∧
        ∃ text,
          token.literal = some (.text text) ∧
            Json.decode depth text = .error .notJson ∧
            stringValue strict depth token =
              throw ⟨.notJson, token, []⟩) ∨
      stringValue strict depth token =
        tooDeep .literalNestedTooDeeply := by
  unfold stringValue
  split
  · rename_i text hLiteral
    cases hDecode : Json.decode depth text with
    | ok value => exact .inl ⟨value, rfl⟩
    | error problem =>
        cases problem with
        | notJson =>
            exact .inr (.inl ⟨rfl, text, hLiteral, hDecode, rfl⟩)
        | nestedTooDeeply => exact .inr (.inr rfl)
  · exact .inl ⟨_, rfl⟩

/-
  What a string stands for takes no token; that it is no JSON
  is found out when it has been taken.
-/
theorem beyond_string
    {cursor : Cursor}
    (hClosed : cursor.Closed)
    (hKind : cursor.current.kind = .string)
    (strict : Bool)
    (depth : Nat) :
    (do
      let _ ← advance
      stringValue strict depth cursor.current).Beyond
        cursor cursor := by
  have hEnd : cursor.current.kind ≠ .endOfInput := hKind ▸ nofun
  have hTaken :
      cursor.current :: cursor.next.rest <:+ cursor.rest :=
    hClosed.rest_eq hEnd ▸ List.suffix_refl _
  rw [Beyond, advance_bind_apply]
  rcases stringValue_cases strict depth cursor.current with
    ⟨value, hSame⟩ | ⟨_, _, _, _, hSame⟩ | hSame
  · rw [hSame]
    exact cursor.rest_next_suffix
  · rw [hSame]
    exact .inr ⟨cursor.rest_next_suffix, .inr ⟨rfl, hKind, hTaken⟩⟩
  · rw [hSame]
    exact .inl rfl

theorem forward_value (strict : Bool) (depth : Nat) :
    Forward (value strict depth) := by
  induction depth with
  | zero =>
      unfold value
      infer_instance
  | succ depth ih =>
      refine ⟨fun cursor hClosed => beyond_current ?_⟩
      split
      case h_5 hKind => exact beyond_string hClosed hKind _ _
      all_goals exact Forward.beyond cursor hClosed

instance (strict : Bool) (depth : Nat) :
    Forward (value strict depth) :=
  forward_value strict depth

/- A constant that is no string is read beyond the token that begins it. -/
theorem beyond_value
    {cursor : Cursor}
    (hClosed : cursor.Closed)
    (hStarts : cursor.current.kind ∈ valueStarts)
    (hKind : cursor.current.kind ≠ .string)
    (strict : Bool)
    (depth : Nat) :
    (value strict depth).Beyond cursor cursor.next := by
  cases depth with
  | zero => exact .inl rfl
  | succ depth =>
      refine beyond_current ?_
      generalize cursor.current.kind = kind at hStarts hKind
      cases kind with
      | leftBracket | leftBrace => exact beyond_advance hClosed
      | identifier | number => exact beyond_advance hClosed
      | trueWord | falseWord | nullWord =>
          exact beyond_advance hClosed
      | string => exact absurd rfl hKind
      | _ => exact absurd hStarts (by decide)

theorem value_of_string
    {cursor : Cursor}
    (hKind : cursor.current.kind = .string)
    (strict : Bool)
    (depth : Nat) :
    value strict (depth + 1) cursor =
      stringValue strict (depth + 1) cursor.current
        cursor.next := by
  rw [value, current_bind_apply, hKind]
  rfl

theorem value_of_not_starts
    {cursor : Cursor}
    (hStarts : cursor.current.kind ∉ valueStarts)
    (strict : Bool)
    (depth : Nat) :
    value strict (depth + 1) cursor =
      (unexpected valueStarts : Parse Value) cursor := by
  rw [value, current_bind_apply]
  generalize cursor.current.kind = kind at hStarts
  cases kind <;> first | rfl | exact absurd (by decide) hStarts

instance (strict : Bool) : Forward (read strict) := by
  unfold read
  infer_instance

end Embedded

------------------------------------------------------------
-- Productions
------------------------------------------------------------

namespace Production

open Parse

section Parts

variable (expression : ExpressionReader)
variable [hExpression : ∀ power, Forward (expression power)]

-- The longest productions have more parts than inference takes
-- together by default.
set_option synthInstance.maxSize 512

include hExpression

instance : Forward (statement expression) := by
  unfold statement
  infer_instance

theorem forward_statements
    (close : TokenKind)
    (fuel : Nat) :
    Forward (statements expression close fuel) := by
  induction fuel with
  | zero =>
      unfold statements
      infer_instance
  | succ fuel ih =>
      unfold statements
      infer_instance

instance (close : TokenKind) (fuel : Nat) :
    Forward (statements expression close fuel) :=
  forward_statements expression close fuel

instance : Forward (block expression) := by
  unfold block
  infer_instance

theorem forward_commaSeparated (fuel : Nat) :
    Forward (commaSeparated expression fuel) := by
  induction fuel with
  | zero =>
      unfold commaSeparated
      infer_instance
  | succ fuel ih =>
      unfold commaSeparated
      infer_instance

instance (fuel : Nat) : Forward (commaSeparated expression fuel) :=
  forward_commaSeparated expression fuel

instance : Forward (array expression) := by
  unfold array
  infer_instance

theorem forward_namedArguments
    (fuel : Nat)
    (earlier : Fields (Node Span)) :
    Forward (namedArguments expression fuel earlier) := by
  induction fuel generalizing earlier with
  | zero =>
      unfold namedArguments
      infer_instance
  | succ fuel ih =>
      unfold namedArguments
      infer_instance

instance (fuel : Nat) (earlier : Fields (Node Span)) :
    Forward (namedArguments expression fuel earlier) :=
  forward_namedArguments expression fuel earlier

/- A name and the sign after it begin named arguments. -/
theorem beyond_namedArguments
    {cursor : Cursor}
    (hClosed : cursor.Closed)
    (hNamed :
      isNamed cursor.current cursor.following.kind = true)
    (fuel : Nat)
    (earlier : Fields (Node Span)) :
    (namedArguments expression (fuel + 1) earlier).Beyond cursor
      cursor.next.next := by
  rcases sign_of_isNamed hNamed with ⟨hName, hSign⟩
  have hFollowing :=
    hClosed.current_next (by rw [hName]; exact nofun)
  rw [← hFollowing] at hSign
  rw [namedArguments_succ]
  refine Beyond.of_eq ?_ (test_of_eq hName)
  rcases hSign with hColon | hAssign
  · exact beyond_test hClosed.next hColon
  · refine Beyond.of_eq ?_
      (test_of_ne (by rw [hAssign]; exact nofun))
    rw [← Cursor.next_seeking cursor.next [.colon]]
    exact beyond_test
      (show (cursor.next.seeking [.colon]).Closed from
        hClosed.next) hAssign

instance (name : Text) (start : Span) :
    Forward (call expression name start) := by
  rw [call_eq]
  infer_instance

omit hExpression in
instance {α : Type} (word : Text) (next : Parse α)
    [Forward next] :
    Forward (afterConnective word next) := by
  unfold afterConnective
  infer_instance

omit hExpression in
instance {α : Type} (next : Parse α) [Forward next] :
    Forward (afterThen next) := by
  unfold afterThen
  infer_instance

omit hExpression in
/- What follows a connective is read beyond its first token. -/
theorem beyond_connective
    {α : Type}
    {word : Text}
    {next : Parse α}
    {cursor : Cursor}
    (hNext :
      ∀ {cursor : Cursor}, cursor.Closed →
        cursor.current.kind.startsOperand = true →
          next.Beyond cursor cursor.next)
    (hClosed : cursor.Closed)
    (hConnective :
      isConnective word cursor.current cursor.following.kind =
        true) :
    (advance >>= fun _ => next).Beyond cursor
      cursor.next.next := by
  rcases name_of_isConnective hConnective with ⟨hName, hStarts⟩
  have hFollowing :=
    hClosed.current_next (by rw [hName]; exact nofun)
  rw [← hFollowing] at hStarts
  exact (hNext hClosed.next hStarts).of_eq
    (advance_bind_apply cursor _)

theorem forward_cases (fuel : Nat) :
    Forward (cases expression fuel) := by
  induction fuel with
  | zero =>
      unfold cases
      infer_instance
  | succ fuel ih =>
      rw [← bind_pure (cases expression (fuel + 1)), cases_bind]
      infer_instance

instance (fuel : Nat) : Forward (cases expression fuel) :=
  forward_cases expression fuel

instance : Forward (switch expression) := by
  unfold switch
  infer_instance

omit hExpression in
instance : Forward skipThen := by
  unfold skipThen connectiveAhead
  infer_instance

theorem forward_branches (fuel : Nat) :
    Forward (branches expression fuel) := by
  induction fuel with
  | zero =>
      unfold branches
      infer_instance
  | succ fuel ih =>
      unfold branches
      infer_instance

instance (fuel : Nat) : Forward (branches expression fuel) :=
  forward_branches expression fuel

instance : Forward (ifChain expression) := by
  unfold ifChain
  infer_instance

instance (base : Node Span) : Forward (index expression base) := by
  unfold index
  infer_instance

/-
  An operand is read beyond the token that begins it, and
  only from such a token.
-/
theorem beyond_operand
    {cursor : Cursor}
    (hClosed : cursor.Closed)
    (hStarts : cursor.current.kind.startsOperand = true)
    (strict : Bool) :
    (operand strict expression).Beyond cursor cursor.next := by
  refine beyond_current ?_
  generalize hKind : cursor.current.kind = kind at hStarts
  cases kind with
  | bang | minus => exact beyond_advance hClosed
  | trueWord | falseWord | nullWord | number | string =>
      exact beyond_advance hClosed
  | identifier => exact beyond_advance hClosed
  | leftParen | leftBracket | leftBrace =>
      exact beyond_advance hClosed
  | «at» => exact beyond_advance hClosed
  | switchWord | ifWord | returnWord =>
      exact beyond_advance hClosed
  | _ => cases hStarts

omit hExpression in
theorem operand_of_not_startsOperand
    {cursor : Cursor}
    (hStarts : cursor.current.kind.startsOperand = false)
    (strict : Bool) :
    operand strict expression cursor =
      (unexpected : Parse (Node Span))
        (cursor.seeking TokenKind.operandStarts) := by
  rw [operand, current_bind_apply]
  generalize cursor.current.kind = kind at hStarts ⊢
  cases kind <;> first | rfl | cases hStarts

instance (strict : Bool) : Forward (operand strict expression) := by
  refine ⟨fun cursor hClosed => ?_⟩
  cases hStarts : cursor.current.kind.startsOperand with
  | true =>
      exact (beyond_operand expression hClosed hStarts strict).mono
        cursor.rest_next_suffix
  | false =>
      exact
        (Forward.beyond (cursor.seeking TokenKind.operandStarts)
          hClosed).of_eq
            (operand_of_not_startsOperand expression hStarts strict)

theorem forward_operators
    (power fuel : Nat)
    (chain : Chain) :
    Forward (operators expression power fuel chain) := by
  induction fuel generalizing chain with
  | zero =>
      unfold operators
      infer_instance
  | succ fuel ih =>
      refine ⟨fun cursor hClosed => ?_⟩
      let place := cursor.seeking (continuations chain.node)
      rcases continues_or_stops power chain.node
          cursor.current.kind with
        ⟨hIndex, hBound⟩ | ⟨hParen, hBound, name, span, hCallee⟩ |
          ⟨found, hLevel, hPower⟩ | hStops
      · exact (Forward.beyond place hClosed).of_eq
          (operators_of_index hIndex hBound fuel)
      · exact (Forward.beyond place hClosed).of_eq
          (operators_of_call hParen hBound hCallee fuel)
      · exact
          ((Forward.beyond cursor.next hClosed.next).mono
            cursor.rest_next_suffix).of_eq
              (operators_of_level hLevel hPower fuel)
      · exact (Forward.beyond place hClosed).of_eq
          (operators_of_stops hStops fuel)

instance (power fuel : Nat) (chain : Chain) :
    Forward (operators expression power fuel chain) :=
  forward_operators expression power fuel chain

section Continuations

variable {power : Nat} {chain : Chain} {cursor : Cursor}
variable (hClosed : cursor.Closed)

include hClosed

theorem beyond_index (base : Node Span) :
    (index expression base).Beyond cursor cursor.next := by
  unfold index
  exact beyond_advance hClosed

theorem beyond_call (name : Text) (start : Span) :
    (call expression name start).Beyond cursor cursor.next := by
  rw [call_eq]
  exact beyond_advance hClosed

/- What continues a node is taken. -/
theorem beyond_operators
    (hContinues :
      ¬ Stops power chain.node cursor.current.kind)
    (fuel : Nat) :
    (operators expression power (fuel + 1) chain).Beyond cursor
      cursor.next := by
  let place := cursor.seeking (continuations chain.node)
  have hPlace : place.next = cursor.next :=
    Cursor.next_seeking cursor _
  have hPlaceClosed : place.Closed := hClosed
  rw [← hPlace]
  rcases continues_or_stops power chain.node
      cursor.current.kind with
    ⟨hIndex, hBound⟩ | ⟨hParen, hBound, name, span, hCallee⟩ |
      ⟨found, hLevel, hPower⟩ | hStops
  · exact
      ((beyond_index expression hPlaceClosed _).bind
        hPlaceClosed.next).of_eq
          (operators_of_index hIndex hBound fuel)
  · exact
      ((beyond_call expression hPlaceClosed name span).bind
        hPlaceClosed.next).of_eq
          (operators_of_call hParen hBound hCallee fuel)
  · rw [hPlace]
    exact (Forward.beyond cursor.next hClosed.next).of_eq
      (operators_of_level hLevel hPower fuel)
  · exact absurd hStops hContinues

end Continuations

end Parts

end Production

------------------------------------------------------------
-- Expressions
------------------------------------------------------------

open Parse

theorem forward_expression
    (strict : Bool)
    (depth power : Nat) :
    Forward (expression strict depth power) := by
  induction depth generalizing power with
  | zero =>
      unfold expression
      infer_instance
  | succ depth ih =>
      unfold expression
      infer_instance

instance (strict : Bool) (depth power : Nat) :
    Forward (expression strict depth power) :=
  forward_expression strict depth power

/- An expression is read beyond the token that begins it. -/
theorem beyond_expression
    {cursor : Cursor}
    (hClosed : cursor.Closed)
    (hStarts : cursor.current.kind.startsOperand = true)
    (strict : Bool)
    (depth power : Nat) :
    (expression strict depth power).Beyond cursor cursor.next := by
  cases depth with
  | zero => exact .inl rfl
  | succ depth =>
      exact
        (Production.beyond_operand _ hClosed hStarts strict).bind
          hClosed.next

theorem Production.beyond_commaSeparated
    {cursor : Cursor}
    (hClosed : cursor.Closed)
    (hStarts : cursor.current.kind.startsOperand = true)
    (strict : Bool)
    (depth fuel : Nat) :
    (commaSeparated (expression strict depth) (fuel + 1)).Beyond
      cursor cursor.next := by
  rw [commaSeparated_succ]
  exact (beyond_expression hClosed hStarts _ _ _).bind hClosed.next

/- Nothing but what can begin an expression begins one. -/
theorem expression_of_not_startsOperand
    {cursor : Cursor}
    (hStarts : cursor.current.kind.startsOperand = false)
    (strict : Bool)
    (depth power : Nat) :
    expression strict (depth + 1) power cursor =
      (unexpected : Parse (Node Span))
        (cursor.seeking TokenKind.operandStarts) := by
  have hOperand :=
    Production.operand_of_not_startsOperand
      (expression strict depth) hStarts strict
  rw [expression, bind_of_error hOperand]
  rfl

theorem startsOperand_of_expression
    {strict : Bool}
    {depth power : Nat}
    {cursor after : Cursor}
    {node : Node Span}
    (hOk : expression strict depth power cursor = .ok node after) :
    cursor.current.kind.startsOperand = true := by
  cases depth with
  | zero => cases hOk
  | succ depth =>
      cases hStarts : cursor.current.kind.startsOperand with
      | true => rfl
      | false =>
          rw [expression_of_not_startsOperand hStarts] at hOk
          cases hOk

namespace Production

/- A statement is read beyond the token that begins it. -/
theorem beyond_statement
    {cursor : Cursor}
    (hClosed : cursor.Closed)
    (hStarts : cursor.current.kind.startsOperand = true)
    (strict : Bool)
    (depth : Nat) :
    (statement (expression strict depth)).Beyond cursor
      cursor.next := by
  rw [statement_eq]
  cases hAhead :
      isAssigned cursor.current cursor.following.kind with
  | true =>
      exact (beyond_advance hClosed).of_eq (lookahead_of_ahead hAhead)
  | false =>
      exact (beyond_expression hClosed hStarts _ _ _).of_eq
        (lookahead_of_not_ahead hAhead)

/- A statement begins with an expression or a name. -/
theorem startsOperand_of_statement
    {strict : Bool}
    {depth : Nat}
    {cursor after : Cursor}
    {node : Node Span}
    (hOk :
      statement (expression strict depth) cursor =
        .ok node after) :
    cursor.current.kind.startsOperand = true := by
  rw [statement_eq] at hOk
  cases hAhead :
      isAssigned cursor.current cursor.following.kind with
  | true =>
      rw [(name_of_isAssigned hAhead).1]
      rfl
  | false =>
      rw [lookahead_of_not_ahead hAhead] at hOk
      exact startsOperand_of_expression hOk

/- A statement takes a token at least. -/
theorem fuel_lt_of_statement
    {strict : Bool}
    {depth : Nat}
    {cursor after : Cursor}
    {node : Node Span}
    (hClosed : cursor.Closed)
    (hOk :
      statement (expression strict depth) cursor =
        .ok node after) :
    after.fuel < cursor.fuel := by
  have hStarts := startsOperand_of_statement hOk
  refine Nat.lt_of_le_of_lt
    ((beyond_statement hClosed hStarts _ _).fuel_le hOk)
    (hClosed.fuel_next_lt fun hKind => ?_)
  rw [hKind] at hStarts
  cases hStarts

end Production

instance (strict : Bool) : Forward (script strict) := by
  unfold script
  infer_instance

------------------------------------------------------------
-- Scripts That Fail
------------------------------------------------------------

/- Tokens end in the only one of them that marks an end. -/
def AreClosed (tokens : List Token) : Prop :=
  ∃ front close,
    tokens = front ++ [close] ∧
      close.kind = .endOfInput ∧
      ∀ token ∈ front, token.kind ≠ .endOfInput

namespace AreClosed

variable {tokens : List Token} (hTokens : AreClosed tokens)

include hTokens

theorem closed_start : (Cursor.start tokens).Closed := by
  rcases hTokens with ⟨front, close, rfl, hClose, hOthers⟩
  exact .start hClose hOthers

theorem rest_start : (Cursor.start tokens).rest = tokens := by
  rcases hTokens with ⟨front, close, rfl, -, -⟩
  cases front <;> rfl

end AreClosed

theorem parseTokens_eq_ok_iff
    {strict : Bool}
    {tokens : List Token}
    {tree : Node Span} :
    parseTokens strict tokens = .ok tree ↔
      ∃ after,
        script strict (Cursor.start tokens) = .ok tree after := by
  unfold parseTokens EStateM.run
  cases script strict (Cursor.start tokens) <;> simp

theorem parseTokens_eq_error_iff
    {strict : Bool}
    {tokens : List Token}
    {error : SyntaxError} :
    parseTokens strict tokens = .error error ↔
      ∃ after,
        script strict (Cursor.start tokens) =
          .error error after := by
  unfold parseTokens EStateM.run
  cases script strict (Cursor.start tokens) <;> simp

/-
  Reading a script fails with an error about the token of an
  index. That a string is no JSON is found after the string.
-/
def FailsAt
    (strict : Bool)
    (tokens : List Token)
    (index : Nat)
    (error : SyntaxError) : Prop :=
  ∃ front back after,
    tokens = front ++ error.found :: back ∧
      front.length = index ∧
      script strict (Cursor.start tokens) = .error error after ∧
      after.rest =
        if error.cause = .notJson then back
        else error.found :: back

/- Every error but one about the limit of nesting is about some token. -/
theorem exists_failsAt
    {strict : Bool}
    {tokens : List Token}
    {error : SyntaxError}
    {after : Cursor}
    (hTokens : AreClosed tokens)
    (hError :
      script strict (Cursor.start tokens) = .error error after)
    (hLimit : error.isDepthLimit = false) :
    ∃ index, FailsAt strict tokens index error := by
  have hForward : Forward (script strict) := inferInstance
  have hBeyond :=
    (hForward.beyond _ hTokens.closed_start).of_error hError
  rw [hTokens.rest_start] at hBeyond
  rcases hBeyond with hDepth | ⟨⟨front, hFront⟩, hBlames⟩
  · rw [hLimit] at hDepth
    cases hDepth
  rcases hBlames with ⟨hCause, hFound⟩ | ⟨hCause, -, front, hString⟩
  · refine ⟨front.length, front, after.ahead, after, ?_, rfl,
      hError, ?_⟩
    · rw [hFound]
      exact hFront.symm
    · rw [if_neg hCause, hFound]
      rfl
  · rw [hTokens.rest_start] at hString
    exact ⟨front.length, front, after.rest, after, hString.symm,
      rfl, hError, (if_pos hCause).symm⟩

/- Where a run stops tells the token that its error is about. -/
theorem FailsAt.length_eq
    {strict : Bool}
    {tokens : List Token}
    {index : Nat}
    {error : SyntaxError}
    {after : Cursor}
    (hFails : FailsAt strict tokens index error)
    (hError :
      script strict (Cursor.start tokens) = .error error after) :
    tokens.length =
      index + (if error.cause = .notJson then 1 else 0) +
        after.fuel := by
  rcases hFails with ⟨front, back, stop, rfl, rfl, hStop, hRest⟩
  rw [hStop] at hError
  cases hError
  rw [← Cursor.length_rest, hRest, List.length_append]
  split <;> simp only [List.length_cons] <;> omega

end ExperimentScript
