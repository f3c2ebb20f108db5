import ExperimentScript.Proofs.Parser.Forward

/-
  What stands at the end of an expression.

  The last token that an expression or a statement takes is
  one that completes an operand. A step that takes no token
  keeps the one before its place, so that of every production
  only the last token that it takes matters.

  Key definitions include:
    * `ExperimentScript.Parse.Completes`
    * `ExperimentScript.Parse.Carries`

  Main declarations:
    * `ExperimentScript.completes_expression`
    * `ExperimentScript.Production.completes_statement`
-/

namespace ExperimentScript

------------------------------------------------------------
-- Taking A Token
------------------------------------------------------------

namespace Cursor

variable {cursor : Cursor}

/- The place after a token is right behind it. -/
theorem Closed.previous_next
    (hClosed : cursor.Closed)
    (hKind : cursor.current.kind ≠ .endOfInput) :
    cursor.next.previous = cursor.current := by
  have hAhead := mt hClosed.kind_eq_iff.mpr hKind
  cases hTokens : cursor.ahead with
  | nil => exact absurd hTokens hAhead
  | cons token tokens => simp only [Cursor.next, hTokens]

/- Nothing has been looked for at a new place. -/
theorem sought_next (cursor : Cursor) : cursor.next.sought = [] := by
  unfold next
  split <;> rfl

end Cursor

theorem TokenKind.ne_end_of_endsOperand
    {kind : TokenKind}
    (hKind : kind.endsOperand = true) :
    kind ≠ .endOfInput := by
  rintro rfl
  cases hKind

------------------------------------------------------------
-- Steps That End After An Operand
------------------------------------------------------------

namespace Parse

variable {α β : Type}

/- A step that ends right after a token that completes an operand. -/
def Completes (step : Parse α) : Prop :=
  ∀ cursor : Cursor, cursor.Closed →
    step.Ends cursor
      (fun _ after => after.previous.kind.endsOperand = true)
      fun _ => True

/- A step that does so if it begins right after such a token. -/
def Carries (step : Parse α) : Prop :=
  ∀ cursor : Cursor, cursor.Closed →
    cursor.previous.kind.endsOperand = true →
      step.Ends cursor
        (fun _ after => after.previous.kind.endsOperand = true)
        fun _ => True

theorem Completes.carries
    {step : Parse α}
    (hStep : Completes step) :
    Carries step :=
  fun cursor hClosed _ => hStep cursor hClosed

/- What is known of the end of a step is known where the next begins. -/
theorem ends_bind_of_forward
    {first : Parse β}
    {next : β → Parse α}
    [hFirst : Forward first]
    {cursor : Cursor}
    {between : β → Cursor → Prop}
    {done : α → Cursor → Prop}
    (hClosed : cursor.Closed)
    (hBetween : first.Ends cursor between fun _ => True)
    (hNext :
      ∀ result after, after.Closed → between result after →
        (next result).Ends after done fun _ => True) :
    (first >>= next).Ends cursor done fun _ => True := by
  have hBeyond := hFirst.beyond cursor hClosed
  rw [ends_bind]
  unfold Beyond at hBeyond
  unfold Ends at hBetween ⊢
  cases hStep : first cursor with
  | error error after => trivial
  | ok result after =>
      rw [hStep] at hBeyond hBetween
      exact hNext result after (hClosed.of_suffix hBeyond) hBetween

theorem ends_of_true
    (step : Parse α)
    (cursor : Cursor) :
    step.Ends cursor (fun _ _ => True) fun _ => True := by
  unfold Ends
  split <;> trivial

namespace Carries

theorem pure (result : α) : Carries (Pure.pure result) :=
  fun _ _ => id

/- A production ends by marking what it gives with a span. -/
theorem spanned (start : Span) (mark : Span → α) :
    Carries
      (spanFrom start >>= fun span => Pure.pure (mark span)) :=
  fun _ _ => id

/- Where an optional token begins more, that has to end well. -/
theorem test
    {kind : TokenKind}
    {taken : Token → Parse α}
    {other : Parse α}
    (hTaken : ∀ token, Completes (taken token))
    (hOther : Carries other) :
    Carries (Parse.test kind taken other) := by
  intro cursor hClosed hPrevious
  by_cases hKind : cursor.current.kind = kind
  · rw [Ends, test_of_eq hKind]
    exact hTaken _ cursor.next hClosed.next
  · rw [Ends, test_of_ne hKind]
    exact hOther (cursor.seeking [kind]) hClosed hPrevious

end Carries

namespace Completes

variable {kind : TokenKind}
variable {taken : Token → Parse α}
variable {other : Parse α}

theorem unexpected : Completes (Parse.unexpected : Parse α) :=
  fun _ _ => trivial

theorem tooDeep (cause : SyntaxCause) :
    Completes (Parse.tooDeep cause : Parse α) :=
  fun _ _ => trivial

/- Only the end of the last step matters. -/
theorem bind
    {first : Parse β}
    {next : β → Parse α}
    [Forward first]
    (hNext : ∀ result, Completes (next result)) :
    Completes (first >>= next) :=
  fun cursor hClosed =>
    ends_bind_of_forward hClosed (ends_of_true first cursor)
      fun result after hAfter _ => hNext result after hAfter

/- What carries the end of an operand may follow. -/
theorem append
    {first : Parse β}
    {next : β → Parse α}
    [Forward first]
    (hFirst : Completes first)
    (hNext : ∀ result, Carries (next result)) :
    Completes (first >>= next) :=
  fun cursor hClosed =>
    ends_bind_of_forward hClosed (hFirst cursor hClosed) hNext

theorem test
    (hTaken : ∀ token, Completes (taken token))
    (hOther : Completes other) :
    Completes (Parse.test kind taken other) := by
  intro cursor hClosed
  by_cases hKind : cursor.current.kind = kind
  · rw [Ends, test_of_eq hKind]
    exact hTaken _ cursor.next hClosed.next
  · rw [Ends, test_of_ne hKind]
    exact hOther (cursor.seeking [kind]) hClosed

/- The token that a choice takes may complete an operand itself. -/
theorem choice
    {takes : TokenKind → Bool}
    (hEnd : takes .endOfInput = false)
    (hTaken :
      ∀ cursor : Cursor, cursor.Closed →
        takes cursor.previous.kind = true →
          (taken cursor.previous).Ends cursor
            (fun _ after =>
              after.previous.kind.endsOperand = true)
            fun _ => True)
    (hOther : Completes other) :
    Completes (Parse.choice takes taken other) := by
  intro cursor hClosed
  cases hTakes : takes cursor.current.kind with
  | true =>
      have hPrevious :=
        hClosed.previous_next fun hKind => by
          rw [hKind, hEnd] at hTakes
          cases hTakes
      rw [Ends, choice_of_takes hTakes, ← hPrevious]
      rw [← hPrevious] at hTakes
      exact hTaken cursor.next hClosed.next hTakes
  | false =>
      rw [Ends, choice_of_not_takes hTakes]
      exact hOther cursor hClosed

/- A closing token completes an operand. -/
theorem closing
    (hKind : kind.endsOperand = true)
    (hTaken : ∀ token, Carries (taken token))
    (hOther : Completes other) :
    Completes (Parse.test kind taken other) := by
  have hEnd : decide (TokenKind.endOfInput = kind) = false :=
    decide_eq_false (TokenKind.ne_end_of_endsOperand hKind).symm
  refine bind fun _ => choice hEnd (fun cursor hClosed hTakes => ?_)
    hOther
  exact hTaken _ cursor hClosed (of_decide_eq_true hTakes ▸ hKind)

theorem lookahead
    {ahead : Token → TokenKind → Bool}
    (hTaken : ∀ token, Completes (taken token))
    (hOther : Completes other) :
    Completes (Parse.lookahead ahead taken other) := by
  refine bind fun token => bind fun following => ?_
  split
  · exact hTaken token
  · exact hOther

end Completes

/- A token that completes an operand is taken. -/
theorem ends_of_advance
    {next : Token → Parse α}
    {cursor : Cursor}
    (hClosed : cursor.Closed)
    (hKind : cursor.current.kind.endsOperand = true)
    (hNext : ∀ token, Carries (next token)) :
    (advance >>= next).Ends cursor
      (fun _ after => after.previous.kind.endsOperand = true)
      fun _ => True := by
  have hPrevious :=
    hClosed.previous_next (TokenKind.ne_end_of_endsOperand hKind)
  rw [ends_bind, ends_advance]
  exact hNext _ cursor.next hClosed.next (hPrevious ▸ hKind)

end Parse

------------------------------------------------------------
-- Embedded Constants
------------------------------------------------------------

namespace Embedded

open Parse

theorem completes_unexpected
    {α : Type}
    (kinds : List TokenKind) :
    Completes (unexpected kinds : Parse α) :=
  fun _ _ => trivial

/- A list or map goes on after a comma and ends at its closing token. -/
theorem completes_oneOf
    {α : Type}
    {kind : TokenKind}
    {more : Parse α}
    {result : α}
    (hKind : kind.endsOperand = true)
    (hMore : Completes more) :
    Completes
      (oneOf [.comma, kind] fun token =>
        if token.kind = .comma then more else pure result) := by
  have hEnd : [TokenKind.comma, kind].contains .endOfInput = false := by
    simp [(TokenKind.ne_end_of_endsOperand hKind).symm]
  refine .choice hEnd (fun cursor hClosed hTakes => ?_)
    (completes_unexpected _)
  split
  · exact hMore cursor hClosed
  · rename_i hComma
    have hClosing : cursor.previous.kind = kind := by
      simpa [hComma] using hTakes
    rw [ends_pure, hClosing]
    exact hKind

section Parts

variable (value : Parse Value) [Forward value]

theorem completes_items (fuel : Nat) :
    Completes (items value fuel) := by
  induction fuel with
  | zero => exact completes_unexpected _
  | succ fuel ih =>
      rw [items_succ]
      refine .bind fun item => completes_oneOf rfl ?_
      exact .append ih fun _ => .pure _

theorem completes_list : Completes (list value) := by
  rw [list_eq]
  refine .choice rfl (fun cursor _ hTakes => ?_)
    (.bind fun _ =>
      .append (completes_items value _) fun _ => .pure _)
  rw [ends_pure, of_decide_eq_true hTakes]
  rfl

theorem completes_fields
    (fuel : Nat)
    (earlier : Fields Value) :
    Completes (fields value fuel earlier) := by
  induction fuel generalizing earlier with
  | zero => exact completes_unexpected _
  | succ fuel ih =>
      rw [fields_succ]
      refine .choice rfl (fun cursor hClosed _ => ?_)
        (completes_unexpected _)
      refine Completes.choice rfl (fun cursor hClosed _ => ?_)
        (completes_unexpected _) cursor hClosed
      exact
        Completes.bind (fun item => completes_oneOf rfl (ih _))
          cursor hClosed

theorem completes_map : Completes (map value) := by
  rw [map_eq]
  refine .choice rfl (fun cursor _ hTakes => ?_)
    (.bind fun _ =>
      .append (completes_fields value _ _) fun _ => .pure _)
  rw [ends_pure, of_decide_eq_true hTakes]
  rfl

end Parts

theorem carries_stringValue
    (strict : Bool)
    (depth : Nat)
    (token : Token) :
    Carries (stringValue strict depth token) := by
  intro cursor hClosed hPrevious
  rcases stringValue_cases strict depth token with
    ⟨value, hSame⟩ | ⟨-, text, -, -, hSame⟩ | hSame
  · rw [hSame]
    exact hPrevious
  · rw [hSame]
    trivial
  · rw [hSame]
    trivial

theorem completes_value
    (strict : Bool)
    (depth : Nat) :
    Completes (value strict depth) := by
  cases depth with
  | zero => exact .tooDeep _
  | succ depth =>
      intro cursor hClosed
      rw [value, ends_bind, ends_current]
      split
      · exact Completes.bind (fun _ => completes_list _) cursor hClosed
      · exact Completes.bind (fun _ => completes_map _) cursor hClosed
      case h_5 hKind =>
        exact ends_of_advance hClosed (by rw [hKind]; rfl)
          fun _ => carries_stringValue _ _ _
      case h_9 => trivial
      all_goals
        rename_i hKind
        exact ends_of_advance hClosed (by rw [hKind]; rfl)
          fun _ => .pure _

end Embedded

------------------------------------------------------------
-- Productions
------------------------------------------------------------

namespace Production

open Parse

section Parts

variable (strict : Bool) (depth : Nat)
variable
  (hBody :
    ∀ power, Completes (expression strict depth power))

include hBody

theorem completes_branches (fuel : Nat) :
    Completes (branches (expression strict depth) fuel) := by
  induction fuel with
  | zero => exact .unexpected
  | succ fuel ih =>
      rw [branches]
      refine .bind fun _ => .bind fun guard => .bind fun _ =>
        .bind fun _ => .append (hBody 0) fun consequence => ?_
      rw [accept_bind]
      refine .test (fun _ => ?_) (.pure _)
      rw [if_pos rfl, accept_bind]
      refine .test (fun _ => ?_) ?_
      · exact .append ih fun _ => .pure _
      · exact .append (hBody 0) fun _ => .pure _

omit hBody in
/- A switch ends at the token that closes its cases. -/
theorem completes_cases
    {α : Type}
    (fuel : Nat)
    (next : List (Case Span) → Parse α)
    [∀ inner, Forward (next inner)]
    (hNext : ∀ inner, Carries (next inner)) :
    Completes
      (do
        let inner ← cases (expression strict depth) fuel
        let _ ← advance
        next inner) := by
  induction fuel generalizing next with
  | zero => exact .unexpected
  | succ fuel ih =>
      rw [cases_bind, check_advance_bind]
      have hMore :
          Completes
            (do
              let guard ← expression strict depth 0
              either .colon .fatArrow do
                let result ← expression strict depth 0
                optional .semicolon do
                  let rest ← cases (expression strict depth) fuel
                  let _ ← advance
                  next (.mk guard result :: rest)) := by
        refine .bind fun guard => ?_
        have hResult :
            Completes
              (do
                let result ← expression strict depth 0
                optional .semicolon do
                  let rest ← cases (expression strict depth) fuel
                  let _ ← advance
                  next (.mk guard result :: rest)) :=
          .bind fun result =>
            .test (fun _ => ih _ fun _ => hNext _)
              (ih _ fun _ => hNext _)
        exact .test (fun _ => hResult)
          (.test (fun _ => hResult) .unexpected)
      exact .closing rfl (fun _ => hNext []) <|
        .lookahead (fun _ => .bind fun _ => hMore) hMore

omit hBody in
theorem completes_block :
    Completes (block (expression strict depth)) := by
  refine .bind fun opening => .bind fun cursor => .bind fun inner => ?_
  rw [expect_bind]
  exact .closing rfl (fun _ => .spanned _ _) .unexpected

omit hBody in
theorem completes_array :
    Completes (array (expression strict depth)) := by
  rw [array_eq]
  refine .bind fun opening => .closing rfl (fun _ => .spanned _ _) ?_
  refine .bind fun cursor => .bind fun items => ?_
  exact .closing rfl (fun _ => .spanned _ _) .unexpected

omit hBody in
theorem completes_call (name : Text) (start : Span) :
    Completes (call (expression strict depth) name start) := by
  rw [call_eq]
  refine .bind fun _ => .closing rfl (fun _ => .spanned _ _) ?_
  refine .lookahead (fun _ => .bind fun cursor => .bind fun _ => ?_)
    (.bind fun cursor => .bind fun _ => ?_)
  · exact .closing rfl (fun _ => .spanned _ _) .unexpected
  · exact .closing rfl (fun _ => .spanned _ _) .unexpected

omit hBody in
theorem completes_index (base : Node Span) :
    Completes (index (expression strict depth) base) := by
  unfold index
  simp only [expect_bind]
  exact .bind fun _ => .bind fun _ =>
    .closing rfl (fun _ => .spanned _ _) .unexpected

theorem completes_operand :
    Completes (operand strict (expression strict depth)) := by
  have hUnary (op : UnaryOp) :
      Completes (unary (expression strict depth) op) :=
    .bind fun _ => .append (hBody unaryPower) fun _ => .spanned _ _
  intro cursor hClosed
  rw [operand, ends_bind, ends_current]
  split
  · exact hUnary _ cursor hClosed
  · exact hUnary _ cursor hClosed
  case h_9 =>
    unfold parenthesised
    simp only [expect_bind]
    exact
      Completes.bind
        (fun _ => .bind fun _ =>
          .closing rfl (fun _ => .pure _) .unexpected)
        cursor hClosed
  case h_10 => exact completes_array strict depth cursor hClosed
  case h_11 => exact completes_block strict depth cursor hClosed
  case h_12 =>
    exact
      Completes.bind
        (fun _ =>
          .append (Embedded.completes_value strict _)
            fun _ => .spanned _ _)
        cursor hClosed
  case h_13 =>
    refine Completes.bind (fun word => ?_) cursor hClosed
    refine .bind fun _ => .bind fun place => ?_
    exact completes_cases strict depth _ _ fun _ => .spanned _ _
  case h_14 =>
    refine Completes.bind (fun word => .bind fun place => ?_) cursor
      hClosed
    exact .append (completes_branches strict depth hBody _)
      fun _ => .spanned _ _
  case h_15 =>
    exact
      Completes.bind
        (fun word => .append (hBody 0) fun _ => .spanned _ _)
        cursor hClosed
  case h_16 => trivial
  all_goals
    rename_i hKind
    exact ends_of_advance hClosed (by rw [hKind]; rfl)
      fun _ => .pure _

theorem carries_operators
    (power fuel : Nat)
    (chain : Chain) :
    Carries
      (operators (expression strict depth) power fuel chain) := by
  induction fuel generalizing chain with
  | zero => exact Completes.unexpected.carries
  | succ fuel ih =>
      intro cursor hClosed hPrevious
      let place := cursor.seeking (continuations chain.node)
      have hPlace : place.Closed := hClosed
      unfold Ends
      rcases continues_or_stops power chain.node
          cursor.current.kind with
        ⟨hIndex, hBound⟩ | ⟨hParen, hBound, name, span, hCallee⟩ |
          ⟨found, hLevel, hPower⟩ | hStops
      · rw [operators_of_index hIndex hBound fuel]
        exact Completes.append (completes_index strict depth _)
          (fun _ => ih _) place hPlace
      · rw [operators_of_call hParen hBound hCallee fuel]
        exact Completes.append (completes_call strict depth _ _)
          (fun _ => ih _) place hPlace
      · rw [operators_of_level hLevel hPower fuel]
        exact Completes.append (hBody _) (fun _ => ih _) cursor.next
          hClosed.next
      · rw [operators_of_stops hStops fuel]
        exact hPrevious

end Parts

end Production

open Parse

/- An expression ends with a token that completes an operand. -/
theorem completes_expression
    (strict : Bool)
    (depth power : Nat) :
    Completes (expression strict depth power) := by
  induction depth generalizing power with
  | zero => exact .tooDeep _
  | succ depth ih =>
      exact .append (Production.completes_operand strict depth ih)
        fun first cursor hClosed =>
          Production.carries_operators strict depth ih power
            cursor.fuel ⟨first, none⟩ cursor hClosed

/- So does a statement. -/
theorem Production.completes_statement
    (strict : Bool)
    (depth : Nat) :
    Completes (statement (expression strict depth)) := by
  rw [statement_eq]
  refine .lookahead (fun token => ?_) (completes_expression strict depth 0)
  exact .bind fun _ => .bind fun _ =>
    .append (completes_expression strict depth 0)
      fun _ => .spanned _ _

end ExperimentScript
