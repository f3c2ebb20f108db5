import ExperimentScript.Parser

/-
  What a step of reading does from a given cursor.

  `Parse.Ends` says of a step that it ends with a result and
  a cursor of which one thing holds, or fails with an error
  of which another does. Every basic step has one rule that
  rewrites such a statement, so that the statement about a
  production opens into statements about its parts.

  Key definitions include:
    * `ExperimentScript.Cursor.rest`
    * `ExperimentScript.Cursor.seeking`
    * `ExperimentScript.Parse.Ends`
    * `ExperimentScript.Parse.outcome?`

  Main declarations:
    * `ExperimentScript.Parse.ends_bind`
    * `ExperimentScript.Parse.Ends.mono`
-/

namespace ExperimentScript

------------------------------------------------------------
-- Tokens Left
------------------------------------------------------------

namespace Cursor

/- The tokens from the place on. -/
def rest (cursor : Cursor) : List Token :=
  cursor.current :: cursor.ahead

/- The same place with more kinds looked for. -/
def seeking
    (cursor : Cursor)
    (kinds : List TokenKind) :
    Cursor :=
  { cursor with sought := cursor.sought ++ kinds }

variable (cursor : Cursor) (kinds : List TokenKind)

@[simp] theorem previous_seeking :
    (cursor.seeking kinds).previous = cursor.previous := rfl

@[simp] theorem current_seeking :
    (cursor.seeking kinds).current = cursor.current := rfl

@[simp] theorem ahead_seeking :
    (cursor.seeking kinds).ahead = cursor.ahead := rfl

@[simp] theorem rest_seeking :
    (cursor.seeking kinds).rest = cursor.rest := rfl

@[simp] theorem fuel_seeking :
    (cursor.seeking kinds).fuel = cursor.fuel := rfl

@[simp] theorem following_seeking :
    (cursor.seeking kinds).following = cursor.following := rfl

@[simp] theorem next_seeking :
    (cursor.seeking kinds).next = cursor.next := by
  cases hAhead : cursor.ahead <;> simp [next, seeking, hAhead]

@[simp] theorem rest_ne_nil : cursor.rest ≠ [] :=
  List.cons_ne_nil _ _

@[simp] theorem length_rest : cursor.rest.length = cursor.fuel :=
  rfl

theorem fuel_pos : 0 < cursor.fuel :=
  Nat.succ_pos _

end Cursor

------------------------------------------------------------
-- Outcomes
------------------------------------------------------------

namespace Parse

variable {α β : Type}

/-
  From a cursor a step ends in a way that `done` allows, or
  fails with an error that `failed` allows.
-/
def Ends
    (step : Parse α)
    (cursor : Cursor)
    (done : α → Cursor → Prop)
    (failed : SyntaxError → Prop) : Prop :=
  match step cursor with
  | .ok result after => done result after
  | .error error _ => failed error

/-
  The result of a step from a cursor with the tokens it
  leaves, if it does not fail.
-/
def outcome?
    (step : Parse α)
    (cursor : Cursor) :
    Option (α × List Token) :=
  match step cursor with
  | .ok result after => some (result, after.rest)
  | .error _ _ => none

variable {cursor : Cursor} {failed : SyntaxError → Prop}

/- What is allowed may be widened. -/
theorem Ends.mono
    {step : Parse α}
    {done wider : α → Cursor → Prop}
    {failedWider : SyntaxError → Prop}
    (hEnds : step.Ends cursor done failed)
    (hDone : ∀ result after, done result after → wider result after)
    (hFailed : ∀ error, failed error → failedWider error) :
    step.Ends cursor wider failedWider := by
  unfold Ends at *
  cases hStep : step cursor with
  | ok result after =>
      rw [hStep] at hEnds
      exact hDone result after hEnds
  | error error after =>
      rw [hStep] at hEnds
      exact hFailed error hEnds

/- A step that ends is one that ends with what is allowed. -/
theorem Ends.of_ok
    {step : Parse α}
    {done : α → Cursor → Prop}
    {result : α}
    {after : Cursor}
    (hEnds : step.Ends cursor done failed)
    (hStep : step cursor = .ok result after) :
    done result after := by
  simpa [Ends, hStep] using hEnds

------------------------------------------------------------
-- Rules Of The Basic Steps
------------------------------------------------------------

section Rules

variable (done : α → Cursor → Prop)

@[simp] theorem ends_pure (result : α) :
    Ends (pure result) cursor done failed ↔
      done result cursor := Iff.rfl

@[simp] theorem ends_bind
    (first : Parse β)
    (second : β → Parse α) :
    Ends (first >>= second) cursor done failed ↔
      first.Ends cursor
        (fun result after =>
          (second result).Ends after done failed)
        failed := by
  simp only [Ends, bind, EStateM.bind]
  cases first cursor <;> rfl

@[simp] theorem ends_map
    (first : Parse β)
    (f : β → α) :
    Ends (f <$> first) cursor done failed ↔
      first.Ends cursor
        (fun result after => done (f result) after)
        failed := by
  simp only [Ends, Functor.map, EStateM.map]
  cases first cursor <;> rfl

@[simp] theorem ends_ite
    (condition : Prop)
    [Decidable condition]
    (first second : Parse α) :
    Ends (if condition then first else second)
        cursor done failed ↔
      if condition then first.Ends cursor done failed
      else second.Ends cursor done failed := by
  split <;> rfl

@[simp] theorem ends_throw (error : SyntaxError) :
    Ends (throw error) cursor done failed ↔
      failed error := Iff.rfl

@[simp] theorem ends_unexpected :
    Ends unexpected cursor done failed ↔
      failed ⟨.unexpected, cursor.current, cursor.expected⟩ :=
  Iff.rfl

@[simp] theorem ends_tooDeep (cause : SyntaxCause) :
    Ends (tooDeep cause) cursor done failed ↔
      failed ⟨cause, cursor.current, []⟩ := Iff.rfl

end Rules

@[simp] theorem ends_get (done : Cursor → Cursor → Prop) :
    Ends get cursor done failed ↔ done cursor cursor := Iff.rfl

@[simp] theorem ends_current (done : Token → Cursor → Prop) :
    Ends current cursor done failed ↔
      done cursor.current cursor := Iff.rfl

@[simp] theorem ends_followingKind
    (done : TokenKind → Cursor → Prop) :
    Ends followingKind cursor done failed ↔
      done cursor.following.kind cursor := Iff.rfl

@[simp] theorem ends_advance (done : Token → Cursor → Prop) :
    Ends advance cursor done failed ↔
      done cursor.current cursor.next := Iff.rfl

@[simp] theorem ends_seek
    (kinds : List TokenKind)
    (done : Unit → Cursor → Prop) :
    Ends (seek kinds) cursor done failed ↔
      done () (cursor.seeking kinds) := Iff.rfl

@[simp] theorem ends_check
    (kind : TokenKind)
    (done : Bool → Cursor → Prop) :
    Ends (check kind) cursor done failed ↔
      done (cursor.current.kind = kind)
        (cursor.seeking [kind]) := Iff.rfl

@[simp] theorem ends_spanFrom
    (start : Span)
    (done : Span → Cursor → Prop) :
    Ends (spanFrom start) cursor done failed ↔
      done (start.through cursor.previous.span) cursor := Iff.rfl

@[simp] theorem ends_accept
    (kind : TokenKind)
    (done : Bool → Cursor → Prop) :
    Ends (accept kind) cursor done failed ↔
      if cursor.current.kind = kind then done true cursor.next
      else done false (cursor.seeking [kind]) := by
  simp [accept]

@[simp] theorem ends_expect
    (kind : TokenKind)
    (done : Token → Cursor → Prop) :
    Ends (expect kind) cursor done failed ↔
      if cursor.current.kind = kind then
        done cursor.current cursor.next
      else
        failed ⟨.unexpected, cursor.current,
          (cursor.seeking [kind]).expected⟩ := by
  simp [expect]

------------------------------------------------------------
-- First Steps
------------------------------------------------------------

section FirstSteps

variable (cursor : Cursor)

theorem current_bind_apply (next : Token → Parse α) :
    (current >>= next) cursor = next cursor.current cursor := rfl

theorem get_bind_apply (next : Cursor → Parse α) :
    (get >>= next) cursor = next cursor cursor := rfl

theorem advance_bind_apply (next : Token → Parse α) :
    (advance >>= next) cursor =
      next cursor.current cursor.next := rfl

theorem seek_bind_apply
    (kinds : List TokenKind)
    (next : Unit → Parse α) :
    (seek kinds >>= next) cursor =
      next () (cursor.seeking kinds) := rfl

end FirstSteps

end Parse

end ExperimentScript
