import ExperimentScript.Proofs.Parser.Forward

/-
  What the tokens of an embedded constant stand for.

  The grammar of embedded constants is given as a relation
  between tokens and values, for each mode of reading. The
  modes only differ in what a string stands for: its text, or
  what the text is as JSON. Whatever is read as an embedded
  constant stands for the value that reading gives.

  Key definitions include:
    * `ExperimentScript.Cursor.Passes`
    * `ExperimentScript.Parse.Construes`
    * `ExperimentScript.Embedded.Denotes`

  Main declarations:
    * `ExperimentScript.Embedded.construes_value`
-/

namespace ExperimentScript

------------------------------------------------------------
-- Tokens That Are Taken
------------------------------------------------------------

namespace Cursor

/- From one place to another some tokens are taken. -/
structure Passes
    (cursor : Cursor)
    (tokens : List Token)
    (after : Cursor) : Prop where
  rest : cursor.rest = tokens ++ after.rest
  last : tokens.getLastD cursor.previous = after.previous

namespace Passes

variable {cursor middle after : Cursor}
variable {tokens more : List Token}

theorem refl (cursor : Cursor) : cursor.Passes [] cursor :=
  ⟨rfl, rfl⟩

theorem trans
    (hFirst : cursor.Passes tokens middle)
    (hMore : middle.Passes more after) :
    cursor.Passes (tokens ++ more) after where
  rest := by
    rw [hFirst.rest, hMore.rest, List.append_assoc]
  last := by
    simp only [← hMore.last, ← hFirst.last,
      List.getLastD_eq_getLast?, List.getLast?_append]
    cases more.getLast? <;> rfl

/- One token is taken by moving past it. -/
theorem next
    (hClosed : cursor.Closed)
    (hKind : cursor.current.kind ≠ .endOfInput) :
    cursor.Passes [cursor.current] cursor.next where
  rest := hClosed.rest_eq hKind
  last := by
    have hAhead := mt hClosed.kind_eq_iff.mpr hKind
    cases hTokens : cursor.ahead with
    | nil => exact absurd hTokens hAhead
    | cons token tokens => simp [Cursor.next, hTokens]

theorem suffix
    (hPasses : cursor.Passes tokens after) :
    after.rest <:+ cursor.rest :=
  ⟨tokens, hPasses.rest.symm⟩

end Passes

end Cursor

------------------------------------------------------------
-- Construing
------------------------------------------------------------

namespace Parse

variable {α β : Type}

/-
  From a place a step fails, or it gives a result that is
  right for the tokens that it takes.
-/
def ConstruesAt
    (step : Parse α)
    (cursor : Cursor)
    (right : List Token → α → Prop) : Prop :=
  step.Ends cursor
    (fun result after =>
      ∃ tokens, cursor.Passes tokens after ∧ right tokens result)
    (fun _ => True)

/- From any place a step fails or gives a right result. -/
def Construes
    (step : Parse α)
    (right : List Token → α → Prop) : Prop :=
  ∀ cursor, cursor.Closed → step.ConstruesAt cursor right

theorem ConstruesAt.mono
    {step : Parse α}
    {cursor : Cursor}
    {right wider : List Token → α → Prop}
    (hStep : ConstruesAt step cursor right)
    (hWider :
      ∀ tokens result, right tokens result → wider tokens result) :
    ConstruesAt step cursor wider :=
  Ends.mono hStep
    (fun result _ ⟨tokens, hTokens, hRight⟩ =>
      ⟨tokens, hTokens, hWider tokens result hRight⟩)
    fun _ hFailed => hFailed

/- A token that is taken stands before what comes after it. -/
theorem construesAt_advance
    {next : Token → Parse α}
    {cursor : Cursor}
    {right : List Token → α → Prop}
    (hClosed : cursor.Closed)
    (hKind : cursor.current.kind ≠ .endOfInput)
    (hNext :
      Construes (next cursor.current)
        (fun more => right (cursor.current :: more))) :
    ConstruesAt (advance >>= next) cursor right := by
  rw [ConstruesAt, ends_bind, ends_advance]
  refine Ends.mono (hNext cursor.next hClosed.next) ?_
    fun _ hFailed => hFailed
  rintro result after ⟨more, hMore, hResult⟩
  exact ⟨_, (Cursor.Passes.next hClosed hKind).trans hMore, hResult⟩

namespace Construes

variable {right : List Token → α → Prop}

/- What a step that construes has taken and given. -/
theorem of_ok
    {step : Parse α}
    {cursor after : Cursor}
    {result : α}
    (hStep : Construes step right)
    (hClosed : cursor.Closed)
    (hOk : step cursor = .ok result after) :
    ∃ tokens, cursor.Passes tokens after ∧ right tokens result :=
  (hStep cursor hClosed).of_ok hOk

theorem pure
    {result : α}
    (hRight : right [] result) :
    Construes (Pure.pure result) right :=
  fun cursor _ => ⟨[], .refl cursor, hRight⟩

theorem throw (error : SyntaxError) :
    Construes (MonadExcept.throw error : Parse α) right :=
  fun _ _ => trivial

theorem tooDeep (cause : SyntaxCause) :
    Construes (Parse.tooDeep cause : Parse α) right :=
  fun _ _ => trivial

theorem get
    {next : Cursor → Parse α}
    (hNext : ∀ cursor, Construes (next cursor) right) :
    Construes (MonadState.get >>= next) right :=
  fun cursor hClosed => hNext cursor cursor hClosed

/- What one step after another takes are the tokens of both. -/
theorem bind
    {first : Parse β}
    {next : β → Parse α}
    {between : List Token → β → Prop}
    (hFirst : Construes first between)
    (hNext :
      ∀ tokens result, between tokens result →
        Construes (next result)
          (fun more => right (tokens ++ more))) :
    Construes (first >>= next) right := by
  intro cursor hClosed
  rw [ConstruesAt, ends_bind]
  refine Ends.mono (hFirst cursor hClosed) ?_
    fun _ hFailed => hFailed
  rintro result middle ⟨tokens, hTokens, hResult⟩
  refine Ends.mono
    (hNext tokens result hResult middle
      (hClosed.of_suffix hTokens.suffix)) ?_
    fun _ hFailed => hFailed
  rintro last after ⟨more, hMore, hLast⟩
  exact ⟨tokens ++ more, hTokens.trans hMore, hLast⟩

theorem mono
    {wider : List Token → α → Prop}
    {step : Parse α}
    (hStep : Construes step right)
    (hWider :
      ∀ tokens result, right tokens result → wider tokens result) :
    Construes step wider :=
  fun cursor hClosed => (hStep cursor hClosed).mono hWider

theorem choice
    {takes : TokenKind → Bool}
    {taken : Token → Parse α}
    {other : Parse α}
    (hEnd : takes .endOfInput = false)
    (hTaken :
      ∀ token, takes token.kind = true →
        Construes (taken token) (fun more => right (token :: more)))
    (hOther : Construes other right) :
    Construes (Parse.choice takes taken other) right := by
  intro cursor hClosed
  unfold ConstruesAt Ends
  cases hTakes : takes cursor.current.kind with
  | false =>
      rw [choice_of_not_takes hTakes]
      exact hOther cursor hClosed
  | true =>
      rw [choice_of_takes hTakes]
      refine construesAt_advance hClosed (fun hSame => ?_)
        (hTaken cursor.current hTakes)
      rw [hSame, hEnd] at hTakes
      cases hTakes

end Construes

end Parse

------------------------------------------------------------
-- The Grammar
------------------------------------------------------------

namespace Embedded

/- A text is JSON of a value that nests to whatever depth. -/
def Decodes (text : Text) (value : Value) : Prop :=
  ∃ depth, Json.decode depth text = .ok value

/-
  What a string stands for: its text, or in strict reading
  what the text is as JSON.
-/
def StringDenotes
    (strict : Bool)
    (token : Token)
    (value : Value) : Prop :=
  match strict, token.literal with
  | true, some (.text text) => Decodes text value
  | _, literal => value = literal.getD .null

mutual

/- Tokens are an embedded constant of a value. -/
inductive Denotes (strict : Bool) : List Token → Value → Prop where
  | name
      {token : Token}
      (hKind : token.kind = .identifier) :
      Denotes strict [token] (.text token.text)
  | number
      {token : Token}
      (hKind : token.kind = .number) :
      Denotes strict [token] (token.literal.getD .null)
  | string
      {token : Token}
      {value : Value}
      (hKind : token.kind = .string)
      (hValue : StringDenotes strict token value) :
      Denotes strict [token] value
  | trueWord
      {token : Token}
      (hKind : token.kind = .trueWord) :
      Denotes strict [token] (.bool true)
  | falseWord
      {token : Token}
      (hKind : token.kind = .falseWord) :
      Denotes strict [token] (.bool false)
  | nullWord
      {token : Token}
      (hKind : token.kind = .nullWord) :
      Denotes strict [token] .null
  | emptyList
      {opening closing : Token}
      (hOpening : opening.kind = .leftBracket)
      (hClosing : closing.kind = .rightBracket) :
      Denotes strict [opening, closing] (.list [])
  | list
      {opening : Token}
      {tokens : List Token}
      {values : List Value}
      (hOpening : opening.kind = .leftBracket)
      (hItems : ItemsDenote strict tokens values) :
      Denotes strict (opening :: tokens) (.list values)
  | emptyMap
      {opening closing : Token}
      (hOpening : opening.kind = .leftBrace)
      (hClosing : closing.kind = .rightBrace) :
      Denotes strict [opening, closing] (.map [])
  | map
      {opening : Token}
      {tokens : List Token}
      {fields : Fields Value}
      (hOpening : opening.kind = .leftBrace)
      (hFields : FieldsDenote strict [] tokens fields) :
      Denotes strict (opening :: tokens) (.map fields)

/- Tokens are the items of a list up to its closing bracket. -/
inductive ItemsDenote
    (strict : Bool) : List Token → List Value → Prop where
  | last
      {tokens : List Token}
      {closing : Token}
      {value : Value}
      (hItem : Denotes strict tokens value)
      (hClosing : closing.kind = .rightBracket) :
      ItemsDenote strict (tokens ++ [closing]) [value]
  | more
      {tokens rest : List Token}
      {comma : Token}
      {value : Value}
      {values : List Value}
      (hItem : Denotes strict tokens value)
      (hComma : comma.kind = .comma)
      (hRest : ItemsDenote strict rest values) :
      ItemsDenote strict (tokens ++ comma :: rest)
        (value :: values)

/-
  Tokens are the fields of a map up to its closing brace,
  added to the fields before them. A repeated name keeps its
  first place and its last value.
-/
inductive FieldsDenote
    (strict : Bool) :
    Fields Value → List Token → Fields Value → Prop where
  | last
      {earlier : Fields Value}
      {tokens : List Token}
      {name colon closing : Token}
      {value : Value}
      (hName : name.kind = .identifier)
      (hColon : colon.kind = .colon)
      (hValue : Denotes strict tokens value)
      (hClosing : closing.kind = .rightBrace) :
      FieldsDenote strict earlier
        (name :: colon :: (tokens ++ [closing]))
        (earlier.set name.text value)
  | more
      {earlier fields : Fields Value}
      {tokens rest : List Token}
      {name colon comma : Token}
      {value : Value}
      (hName : name.kind = .identifier)
      (hColon : colon.kind = .colon)
      (hValue : Denotes strict tokens value)
      (hComma : comma.kind = .comma)
      (hRest :
        FieldsDenote strict (earlier.set name.text value) rest
          fields) :
      FieldsDenote strict earlier
        (name :: colon :: (tokens ++ comma :: rest)) fields

end

------------------------------------------------------------
-- Reading By The Grammar
------------------------------------------------------------

open Parse

variable {strict : Bool}

theorem construes_unexpected
    {α : Type}
    {right : List Token → α → Prop}
    (kinds : List TokenKind) :
    Construes (unexpected kinds) right :=
  fun _ _ => trivial

theorem construes_oneOf
    {α : Type}
    {right : List Token → α → Prop}
    {kinds : List TokenKind}
    {taken : Token → Parse α}
    (hEnd : .endOfInput ∉ kinds)
    (hTaken :
      ∀ token, token.kind ∈ kinds →
        Construes (taken token) (fun more => right (token :: more))) :
    Construes (oneOf kinds taken) right :=
  .choice (by simpa using hEnd)
    (fun token hTakes => hTaken token (by simpa using hTakes))
    (construes_unexpected kinds)

section Parts

variable {value : Parse Value}
variable (hValue : Construes value (Denotes strict))

include hValue

theorem construes_items (fuel : Nat) :
    Construes (items value fuel) (ItemsDenote strict) := by
  induction fuel with
  | zero => exact construes_unexpected _
  | succ fuel ih =>
      rw [items_succ]
      refine .bind hValue fun tokens item hItem =>
        construes_oneOf (by decide) fun token hKind => ?_
      split
      · refine .bind ih fun rest values hRest => .pure ?_
        rw [List.append_nil]
        exact .more hItem ‹_› hRest
      · rename_i hOther
        exact .pure (.last hItem (by simpa [hOther] using hKind))

theorem construes_list :
    Construes (list value) (fun tokens result =>
      ∀ opening : Token, opening.kind = .leftBracket →
        Denotes strict (opening :: tokens) result) := by
  rw [list_eq]
  refine .choice rfl
    (fun closing hClosing => .pure fun opening hOpening => ?_)
    (.get fun cursor => .bind (construes_items hValue _)
      fun tokens values hItems => .pure fun opening hOpening => ?_)
  · exact .emptyList hOpening (by simpa using hClosing)
  · rw [List.append_nil]
    exact .list hOpening hItems

theorem construes_fields
    (fuel : Nat)
    (earlier : Fields Value) :
    Construes (fields value fuel earlier)
      (FieldsDenote strict earlier) := by
  induction fuel generalizing earlier with
  | zero => exact construes_unexpected _
  | succ fuel ih =>
      rw [fields_succ]
      refine construes_oneOf (by decide) fun name hName =>
        construes_oneOf (by decide) fun colon hColon =>
          .bind hValue fun tokens item hItem =>
            construes_oneOf (by decide) fun token hKind => ?_
      have hNameKind := List.mem_singleton.mp hName
      have hColonKind := List.mem_singleton.mp hColon
      split
      · exact (ih _).mono fun rest result hFields =>
          .more hNameKind hColonKind hItem ‹_› hFields
      · rename_i hOther
        exact .pure (.last hNameKind hColonKind hItem
          (by simpa [hOther] using hKind))

theorem construes_map :
    Construes (map value) (fun tokens result =>
      ∀ opening : Token, opening.kind = .leftBrace →
        Denotes strict (opening :: tokens) result) := by
  rw [map_eq]
  refine .choice rfl
    (fun closing hClosing => .pure fun opening hOpening => ?_)
    (.get fun cursor => .bind (construes_fields hValue _ _)
      fun tokens fields hFields => .pure fun opening hOpening => ?_)
  · exact .emptyMap hOpening (by simpa using hClosing)
  · rw [List.append_nil]
    exact .map hOpening hFields

end Parts

/- The constant of a string is what the string stands for. -/
theorem construes_stringValue
    (strict : Bool)
    (depth : Nat)
    (token : Token) :
    Construes (stringValue strict depth token)
      (fun tokens value =>
        tokens = [] ∧ StringDenotes strict token value) := by
  unfold stringValue
  split
  · rename_i text hLiteral
    split
    · rename_i hDecode
      refine .pure ⟨rfl, ?_⟩
      simp only [StringDenotes, hLiteral]
      exact ⟨depth, hDecode⟩
    · exact .throw _
    · exact .tooDeep _
  · rename_i hPlain
    refine .pure ⟨rfl, ?_⟩
    unfold StringDenotes
    split
    · rename_i text hLiteral
      exact absurd hLiteral (hPlain text rfl)
    · rfl

/- What is read as an embedded constant stands for the value that is given. -/
theorem construes_value
    (strict : Bool)
    (depth : Nat) :
    Construes (value strict depth) (Denotes strict) := by
  induction depth with
  | zero => exact .tooDeep _
  | succ depth ih =>
      intro cursor hClosed
      rw [value, ConstruesAt, ends_bind, ends_current]
      split
      case h_1 hKind =>
        exact construesAt_advance hClosed (by simp [hKind])
          ((construes_list ih).mono fun _ _ hDenotes =>
            hDenotes _ hKind)
      case h_2 hKind =>
        exact construesAt_advance hClosed (by simp [hKind])
          ((construes_map ih).mono fun _ _ hDenotes =>
            hDenotes _ hKind)
      case h_5 hKind =>
        exact construesAt_advance hClosed (by simp [hKind])
          ((construes_stringValue _ _ _).mono
            fun _ _ hDenotes =>
              hDenotes.1 ▸ .string hKind hDenotes.2)
      case h_3 hKind =>
        exact construesAt_advance hClosed (by simp [hKind])
          (.pure (.name hKind))
      case h_4 hKind =>
        exact construesAt_advance hClosed (by simp [hKind])
          (.pure (.number hKind))
      case h_6 hKind =>
        exact construesAt_advance hClosed (by simp [hKind])
          (.pure (.trueWord hKind))
      case h_7 hKind =>
        exact construesAt_advance hClosed (by simp [hKind])
          (.pure (.falseWord hKind))
      case h_8 hKind =>
        exact construesAt_advance hClosed (by simp [hKind])
          (.pure (.nullWord hKind))
      case h_9 => exact construes_unexpected _ cursor hClosed

end Embedded

end ExperimentScript
