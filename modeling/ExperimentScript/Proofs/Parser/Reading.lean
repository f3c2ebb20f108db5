import ExperimentScript.Proofs.Lexer.Spelling
import ExperimentScript.Proofs.Parser.Layered

/-
  Reading from given tokens.

  `Parse.At` says what a step does wherever certain tokens are
  ahead: it fails because of the limit of nesting, or ends in
  a way that is allowed. Each basic step has one rule for the
  token it meets. `Parse.Reads` says of a step that it reads
  some tokens and stops before the next one.

  Key definitions include:
    * `ExperimentScript.Cursor.symbols`
    * `ExperimentScript.Parse.At`
    * `ExperimentScript.Parse.Reads`

  Main declarations:
    * `ExperimentScript.Parse.At.bind`
    * `ExperimentScript.Parse.At.of_reads`
-/

namespace ExperimentScript

------------------------------------------------------------
-- Tokens Ahead
------------------------------------------------------------

namespace Cursor

/- What the tokens from the place on are. -/
def symbols (cursor : Cursor) : List Symbol :=
  cursor.rest.map Token.symbol

variable {cursor : Cursor}
variable {first second : Symbol}
variable {more : List Symbol}

@[simp] theorem symbols_seeking (kinds : List TokenKind) :
    (cursor.seeking kinds).symbols = cursor.symbols := rfl

theorem length_symbols : cursor.symbols.length = cursor.fuel := by
  simp [symbols]

/- All tokens are ahead of the place before the first one. -/
theorem symbols_start
    {tokens : List Token}
    (hTokens : tokens ≠ []) :
    (start tokens).symbols = tokens.map Token.symbol := by
  cases tokens with
  | nil => exact absurd rfl hTokens
  | cons token tokens => rfl

theorem symbol_current
    (hSymbols : cursor.symbols = first :: more) :
    cursor.current.symbol = first := by
  simp only [symbols, rest, List.map_cons] at hSymbols
  exact (List.cons.inj hSymbols).1

theorem kind_current
    (hSymbols : cursor.symbols = first :: more) :
    cursor.current.kind = first.kind :=
  congrArg Symbol.kind (symbol_current hSymbols)

/- Taking a token leaves what comes after it. -/
theorem symbols_next
    (hSymbols : cursor.symbols = first :: more)
    (hMore : more ≠ []) :
    cursor.next.symbols = more := by
  simp only [symbols, rest, List.map_cons] at hSymbols
  have hAhead := (List.cons.inj hSymbols).2
  cases hTokens : cursor.ahead with
  | nil =>
      rw [hTokens] at hAhead
      exact absurd hAhead.symm hMore
  | cons token tokens =>
      rw [hTokens] at hAhead
      simpa [symbols, rest, next, hTokens] using hAhead

theorem symbol_following
    (hSymbols : cursor.symbols = first :: second :: more) :
    cursor.following.symbol = second := by
  simp only [symbols, rest, List.map_cons] at hSymbols
  have hAhead := (List.cons.inj hSymbols).2
  cases hTokens : cursor.ahead with
  | nil =>
      rw [hTokens] at hAhead
      cases hAhead
  | cons token tokens =>
      rw [hTokens] at hAhead
      simpa [following, hTokens] using (List.cons.inj hAhead).1

end Cursor

------------------------------------------------------------
-- Steps From Given Tokens
------------------------------------------------------------

namespace Parse

variable {α β : Type}

/-
  Wherever some tokens are ahead, a step ends in a way that
  `done` allows, or fails because something nests too deeply.
-/
def At
    (step : Parse α)
    (symbols : List Symbol)
    (done : α → List Symbol → Prop) : Prop :=
  ∀ cursor, cursor.symbols = symbols →
    step.Ends cursor
      (fun result after => done result after.symbols)
      (fun error => error.isDepthLimit = true)

/-
  A step reads some tokens, if a next one of a certain kind
  comes after them, and gives something good.
-/
def Reads
    (step : Parse α)
    (symbols : List Symbol)
    (follow : TokenKind → Bool)
    (good : α → Prop) : Prop :=
  ∀ next rest, follow next.kind = true →
    step.At (symbols ++ next :: rest) fun result left =>
      good result ∧ left = next :: rest

namespace At

variable {symbols more : List Symbol}
variable {first second : Symbol}

theorem bind
    {step : Parse β}
    {next : β → Parse α}
    {done : α → List Symbol → Prop}
    (hStep :
      step.At symbols fun result left => (next result).At left done) :
    (step >>= next).At symbols done := by
  intro cursor hCursor
  rw [ends_bind]
  exact (hStep cursor hCursor).mono
    (fun result after hNext => hNext after rfl)
    (fun _ hFailed => hFailed)

theorem mono
    {step : Parse α}
    {done wider : α → List Symbol → Prop}
    (hStep : step.At symbols done)
    (hWider : ∀ result left, done result left → wider result left) :
    step.At symbols wider := fun cursor hCursor =>
  (hStep cursor hCursor).mono
    (fun result after => hWider result after.symbols)
    (fun _ hFailed => hFailed)

theorem pure
    {result : α}
    {done : α → List Symbol → Prop}
    (hDone : done result symbols) :
    (Pure.pure result : Parse α).At symbols done := by
  rintro cursor rfl
  exact hDone

theorem tooDeep
    {done : α → List Symbol → Prop} :
    (Parse.tooDeep .nestedTooDeeply : Parse α).At symbols done :=
  fun _ _ => rfl

theorem literalTooDeep
    {done : α → List Symbol → Prop} :
    (Parse.tooDeep .literalNestedTooDeeply : Parse α).At symbols
      done :=
  fun _ _ => rfl

/- A step reads its tokens where they are ahead. -/
theorem of_reads
    {step : Parse α}
    {follow : TokenKind → Bool}
    {good : α → Prop}
    {done : α → List Symbol → Prop}
    (hReads : step.Reads symbols follow good)
    (hFollow : follow first.kind = true)
    (hDone : ∀ result, good result → done result (first :: more)) :
    step.At (symbols ++ first :: more) done := by
  refine (hReads first more hFollow).mono ?_
  rintro result left ⟨hGood, rfl⟩
  exact hDone result hGood

/- A list is read with as much fuel as there are tokens left. -/
theorem bind_fuel
    {step : Nat → Parse β}
    {next : β → Parse α}
    {follow : TokenKind → Bool}
    {good : β → Prop}
    {done : α → List Symbol → Prop}
    (hReads :
      ∀ fuel, symbols.length < fuel →
        (step fuel).Reads symbols follow good)
    (hFollow : follow first.kind = true)
    (hNext :
      ∀ result, good result → (next result).At (first :: more) done) :
    ((MonadState.get : Parse Cursor) >>= fun cursor =>
      step cursor.fuel >>= next).At (symbols ++ first :: more)
      done := by
  intro cursor hCursor
  have hFuel : symbols.length < cursor.fuel := by
    rw [← Cursor.length_symbols, hCursor, List.length_append,
      List.length_cons]
    omega
  exact
    bind (of_reads (hReads cursor.fuel hFuel) hFollow hNext)
      cursor hCursor

------------------------------------------------------------
-- Rules Of The Basic Steps
------------------------------------------------------------

theorem current
    {done : Token → List Symbol → Prop}
    (hDone :
      ∀ token, token.symbol = first → done token (first :: more)) :
    Parse.current.At (first :: more) done := by
  intro cursor hCursor
  rw [ends_current, hCursor]
  exact hDone cursor.current (Cursor.symbol_current hCursor)

theorem advance
    {done : Token → List Symbol → Prop}
    (hMore : more ≠ [])
    (hDone : ∀ token, token.symbol = first → done token more) :
    Parse.advance.At (first :: more) done := by
  intro cursor hCursor
  rw [ends_advance, Cursor.symbols_next hCursor hMore]
  exact hDone cursor.current (Cursor.symbol_current hCursor)

theorem followingKind
    {done : TokenKind → List Symbol → Prop}
    (hDone : done second.kind (first :: second :: more)) :
    Parse.followingKind.At (first :: second :: more) done := by
  intro cursor hCursor
  rw [ends_followingKind, hCursor]
  have hKind : cursor.following.kind = second.kind :=
    congrArg Symbol.kind (Cursor.symbol_following hCursor)
  rw [hKind]
  exact hDone

theorem check
    {kind : TokenKind}
    {done : Bool → List Symbol → Prop}
    (hDone : done (first.kind = kind) (first :: more)) :
    (Parse.check kind).At (first :: more) done := by
  intro cursor hCursor
  rw [ends_check, Cursor.symbols_seeking, hCursor]
  rw [Cursor.kind_current hCursor]
  exact hDone

theorem get
    {done : Cursor → List Symbol → Prop}
    (hDone :
      ∀ cursor, cursor.symbols = symbols → done cursor symbols) :
    (MonadState.get : Parse Cursor).At symbols done := by
  rintro cursor rfl
  exact hDone cursor rfl

theorem spanFrom
    {start : Span}
    {done : Span → List Symbol → Prop}
    (hDone : ∀ span, done span symbols) :
    (Parse.spanFrom start).At symbols done := by
  rintro cursor rfl
  exact hDone _

/- A production ends by marking what it gives with a span. -/
theorem spanned
    {start : Span}
    {mark : Span → α}
    {done : α → List Symbol → Prop}
    (hDone : ∀ span, done (mark span) symbols) :
    (Parse.spanFrom start >>= fun span =>
      Pure.pure (mark span)).At symbols done :=
  bind (spanFrom fun span => pure (hDone span))

theorem accept
    {kind : TokenKind}
    {done : Bool → List Symbol → Prop}
    (hKind : first.kind = kind)
    (hMore : more ≠ [])
    (hDone : done true more) :
    (Parse.accept kind).At (first :: more) done := by
  apply bind
  apply check
  rw [decide_eq_true hKind]
  apply bind
  apply advance hMore
  intro token hToken
  exact pure hDone

theorem accept_other
    {kind : TokenKind}
    {done : Bool → List Symbol → Prop}
    (hKind : first.kind ≠ kind)
    (hDone : done false (first :: more)) :
    (Parse.accept kind).At (first :: more) done := by
  apply bind
  apply check
  rw [decide_eq_false hKind]
  exact pure hDone

theorem expect
    {kind : TokenKind}
    {done : Token → List Symbol → Prop}
    (hKind : first.kind = kind)
    (hMore : more ≠ [])
    (hDone : ∀ token, token.symbol = first → done token more) :
    (Parse.expect kind).At (first :: more) done := by
  apply bind
  apply check
  rw [decide_eq_true hKind]
  exact advance hMore hDone

end At

end Parse

end ExperimentScript
