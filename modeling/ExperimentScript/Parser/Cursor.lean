import ExperimentScript.Diagnostic

/-
  A place between tokens, and steps that move it.

  A cursor remembers the kinds that were looked for since
  the last token was taken, so that a failure can name
  everything that could have stood in its place. The last
  token of a script is never taken.

  Key definitions include:
    * `ExperimentScript.Cursor`
    * `ExperimentScript.Parse`
    * `ExperimentScript.Parse.check`
    * `ExperimentScript.Parse.advance`
    * `ExperimentScript.Parse.expect`
-/

namespace ExperimentScript

------------------------------------------------------------
-- Cursors
------------------------------------------------------------

/-
  The token before the place, the token at it, the tokens
  after that, and the kinds looked for at the place.
-/
structure Cursor where
  previous : Token
  current : Token
  ahead : List Token
  sought : List TokenKind

namespace Cursor

/- The place before the first of some tokens. -/
def start : List Token → Cursor
  | [] => ⟨.endAt .start, .endAt .start, [], []⟩
  | token :: tokens => ⟨token, token, tokens, []⟩

/- The place after the token at this one. -/
def next (cursor : Cursor) : Cursor :=
  match cursor.ahead with
  | [] => { cursor with sought := [] }
  | token :: tokens => ⟨cursor.current, token, tokens, []⟩

/- The place after a number of tokens. -/
def skip
    (cursor : Cursor) :
    Nat → Cursor
  | 0 => cursor
  | count + 1 => cursor.next.skip count

/- The token after the one at the place. -/
def following (cursor : Cursor) : Token :=
  cursor.ahead.headD cursor.current

/- More than the number of tokens that can still be taken. -/
def fuel (cursor : Cursor) : Nat :=
  cursor.ahead.length + 1

/- The kinds looked for at the place, each once. -/
def expected (cursor : Cursor) : List TokenKind :=
  TokenKind.all.filter cursor.sought.contains

end Cursor

------------------------------------------------------------
-- Steps
------------------------------------------------------------

/- A step moves the cursor and gives a result, or fails. -/
abbrev Parse := EStateM SyntaxError Cursor

namespace Parse

variable {α : Type}

/- The token at the place. -/
def current : Parse Token :=
  return (← get).current

/- The kind of the token after the one at the place. -/
def followingKind : Parse TokenKind :=
  return (← get).following.kind

/- Takes the token at the place. -/
def advance : Parse Token := do
  let token ← current
  modify Cursor.next
  return token

/- Adds to the kinds that were looked for. -/
def seek (kinds : List TokenKind) : Parse Unit :=
  modify fun cursor =>
    { cursor with sought := cursor.sought ++ kinds }

/- Looks for a kind at the place. -/
def check (kind : TokenKind) : Parse Bool := do
  seek [kind]
  return (← current).kind = kind

/- Fails at the place, where nothing looked for was found. -/
def unexpected : Parse α := do
  let cursor ← get
  throw ⟨.unexpected, cursor.current, cursor.expected⟩

/- Takes a token of a given kind or fails. -/
def expect (kind : TokenKind) : Parse Token := do
  if ← check kind then advance else unexpected

/- Takes a token of a given kind if there is one. -/
def accept (kind : TokenKind) : Parse Bool := do
  if ← check kind then
    let _ ← advance
    return true
  else
    return false

/- Fails because the limit of nesting is hit. -/
def tooDeep (cause : SyntaxCause) : Parse α := do
  throw ⟨cause, ← current, []⟩

/- The span from a given start to the last token taken. -/
def spanFrom (start : Span) : Parse Span :=
  return start.through (← get).previous.span

end Parse

end ExperimentScript
