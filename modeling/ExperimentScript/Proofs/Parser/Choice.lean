import ExperimentScript.Proofs.Parser.Outcome

/-
  Productions as choices between ways to go on.

  Reading decides what to do in two ways. A choice looks at
  the kind of the token at the place and takes the token if
  the kind is right. A lookahead asks for the token after it
  as well. Every production is put together from these, so
  that what holds of both holds of all productions.

  Key definitions include:
    * `ExperimentScript.Parse.choice`
    * `ExperimentScript.Parse.lookahead`
    * `ExperimentScript.Embedded.oneOf`

  Main declarations:
    * `ExperimentScript.Parse.expect_bind`
    * `ExperimentScript.Parse.accept_bind`
    * `ExperimentScript.Parse.check_bind`
-/

namespace ExperimentScript

namespace Parse

variable {α β : Type}

------------------------------------------------------------
-- Ways To Go On
------------------------------------------------------------

/-
  Takes the token at the place if it is of a right kind, and
  goes on in another way if it is not.
-/
def choice
    (takes : TokenKind → Bool)
    (taken : Token → Parse α)
    (other : Parse α) :
    Parse α := do
  let token ← current
  if takes token.kind then
    let _ ← advance
    taken token
  else
    other

/- A choice by one kind, which is looked for. -/
def test
    (kind : TokenKind)
    (taken : Token → Parse α)
    (other : Parse α) :
    Parse α := do
  seek [kind]
  choice (· = kind) taken other

/- Goes on after a token of one of two kinds, or fails. -/
def either
    (kind other : TokenKind)
    (next : Parse α) :
    Parse α :=
  test kind (fun _ => next) (test other (fun _ => next) unexpected)

/- Goes on after a token of a kind if there is one. -/
def optional
    (kind : TokenKind)
    (next : Parse α) :
    Parse α :=
  test kind (fun _ => next) next

/- Goes on in one of two ways by the token at the place and the one after it. -/
def lookahead
    (ahead : Token → TokenKind → Bool)
    (first : Token → Parse α)
    (second : Parse α) :
    Parse α := do
  let token ← current
  let following ← followingKind
  if ahead token following then first token else second

/- What follows a step starts where the step ends. -/
theorem bind_of_ok
    {first : Parse α}
    {result : α}
    {cursor after : Cursor}
    (hFirst : first cursor = .ok result after)
    (next : α → Parse β) :
    (first >>= next) cursor = next result after := by
  simp only [Bind.bind, EStateM.bind, hFirst]

/- Nothing follows a step that fails. -/
theorem bind_of_error
    {first : Parse α}
    {error : SyntaxError}
    {cursor after : Cursor}
    (hFirst : first cursor = .error error after)
    (next : α → Parse β) :
    (first >>= next) cursor = .error error after := by
  simp only [Bind.bind, EStateM.bind, hFirst]

theorem ite_bind
    (condition : Prop)
    [Decidable condition]
    (first second : Parse α)
    (next : α → Parse β) :
    (if condition then first else second) >>= next =
      if condition then first >>= next else second >>= next := by
  split <;> rfl

theorem choice_bind
    (takes : TokenKind → Bool)
    (taken : Token → Parse α)
    (other : Parse α)
    (next : α → Parse β) :
    choice takes taken other >>= next =
      choice takes (fun token => taken token >>= next)
        (other >>= next) := by
  simp only [choice, bind_assoc, ite_bind]

theorem test_bind
    (kind : TokenKind)
    (taken : Token → Parse α)
    (other : Parse α)
    (next : α → Parse β) :
    test kind taken other >>= next =
      test kind (fun token => taken token >>= next)
        (other >>= next) := by
  simp only [test, bind_assoc, choice_bind]

theorem unexpected_bind (next : α → Parse β) :
    unexpected >>= next = unexpected := rfl

section Apply

variable {cursor : Cursor}
variable {takes : TokenKind → Bool}
variable {kind : TokenKind}
variable {taken : Token → Parse α}
variable {other : Parse α}

theorem choice_of_takes
    (hTakes : takes cursor.current.kind = true) :
    choice takes taken other cursor =
      taken cursor.current cursor.next := by
  rw [choice, current_bind_apply, if_pos hTakes,
    advance_bind_apply]

theorem choice_of_not_takes
    (hTakes : takes cursor.current.kind = false) :
    choice takes taken other cursor = other cursor := by
  rw [choice, current_bind_apply,
    if_neg (Bool.eq_false_iff.mp hTakes)]

theorem test_of_eq
    (hKind : cursor.current.kind = kind) :
    test kind taken other cursor =
      taken cursor.current cursor.next := by
  rw [test, seek_bind_apply,
    choice_of_takes (decide_eq_true hKind), Cursor.current_seeking,
    Cursor.next_seeking]

theorem test_of_ne
    (hKind : cursor.current.kind ≠ kind) :
    test kind taken other cursor =
      other (cursor.seeking [kind]) := by
  rw [test, seek_bind_apply,
    choice_of_not_takes (decide_eq_false hKind)]

theorem lookahead_of_ahead
    {ahead : Token → TokenKind → Bool}
    (hAhead :
      ahead cursor.current cursor.following.kind = true) :
    lookahead ahead taken other cursor =
      taken cursor.current cursor := by
  change
    (if ahead cursor.current cursor.following.kind then
      taken cursor.current else other) cursor = _
  rw [if_pos hAhead]

theorem lookahead_of_not_ahead
    {ahead : Token → TokenKind → Bool}
    (hAhead :
      ahead cursor.current cursor.following.kind = false) :
    lookahead ahead taken other cursor = other cursor := by
  change
    (if ahead cursor.current cursor.following.kind then
      taken cursor.current else other) cursor = _
  rw [if_neg (Bool.eq_false_iff.mp hAhead)]

end Apply

------------------------------------------------------------
-- Basic Steps As Choices
------------------------------------------------------------

theorem check_bind_apply
    (kind : TokenKind)
    (next : Bool → Parse α)
    (cursor : Cursor) :
    (check kind >>= next) cursor =
      next (cursor.current.kind = kind) (cursor.seeking [kind]) :=
  rfl

/-
  Looking for a kind is a choice where the step that follows
  on finding it begins by taking the token.
-/
theorem check_bind
    {kind : TokenKind}
    {next : Bool → Parse α}
    (taken : Token → Parse α)
    (hFound :
      ∀ cursor : Cursor, cursor.current.kind = kind →
        next true cursor = taken cursor.current cursor.next) :
    check kind >>= next = test kind taken (next false) := by
  funext cursor
  by_cases hKind : cursor.current.kind = kind
  · have hHere := hFound (cursor.seeking [kind]) hKind
    rw [Cursor.current_seeking, Cursor.next_seeking] at hHere
    rw [test_of_eq hKind, check_bind_apply, decide_eq_true hKind,
      hHere]
  · rw [test_of_ne hKind, check_bind_apply, decide_eq_false hKind]

/- An expected token is the only choice. -/
theorem expect_bind
    (kind : TokenKind)
    (next : Token → Parse α) :
    expect kind >>= next = test kind next unexpected := by
  rw [expect, bind_assoc]
  exact check_bind next fun _ _ => rfl

/- An optional token is a choice that goes on either way. -/
theorem accept_bind
    (kind : TokenKind)
    (next : Bool → Parse α) :
    accept kind >>= next =
      test kind (fun _ => next true) (next false) := by
  rw [accept, bind_assoc]
  exact check_bind (fun _ => next true) fun _ _ => rfl

/- A step that begins by taking a token may follow on finding it. -/
theorem check_advance_bind
    (kind : TokenKind)
    (next : Token → Parse α)
    (other : Parse α) :
    (check kind >>= fun here =>
        if here then advance >>= next else other) =
      test kind next other :=
  check_bind next fun _ _ => rfl

/- Of two kinds that may stand at the place one has to. -/
theorem check_or_bind
    (kind other : TokenKind)
    (next : Parse α) :
    (do
        if !(← check kind) then
          if !(← check other) then
            unexpected
        let _ ← advance
        next) =
      either kind other next := by
  have hOther :
      (do
        if !(← check other) then
          unexpected
        let _ ← advance
        next) =
      test other (fun _ => next) unexpected :=
    check_bind (fun _ => next) fun _ _ => rfl
  rw [either, ← hOther]
  exact check_bind (fun _ => next) fun _ _ => rfl

/- A step that expects a token of a kind may follow on finding one. -/
theorem check_expect_bind
    (kind : TokenKind)
    (next : Token → Parse α)
    (other : Parse α) :
    (check kind >>= fun here =>
        if here then expect kind >>= next else other) =
      test kind next other := by
  refine check_bind next fun cursor hKind => ?_
  rw [if_pos rfl, expect_bind, test_of_eq hKind]

end Parse

------------------------------------------------------------
-- Embedded Constants
------------------------------------------------------------

namespace Embedded

open Parse

variable {α : Type}

/- Takes a token of one of some kinds or fails. -/
def oneOf
    (kinds : List TokenKind)
    (taken : Token → Parse α) :
    Parse α :=
  choice kinds.contains taken (unexpected kinds)

theorem expect_bind
    (kind : TokenKind)
    (next : Token → Parse α) :
    expect kind >>= next = oneOf [kind] next := by
  funext cursor
  by_cases hKind : cursor.current.kind = kind
  · rw [oneOf, choice_of_takes (by simp [hKind]), expect,
      bind_assoc, current_bind_apply, if_pos hKind,
      advance_bind_apply]
  · rw [oneOf, choice_of_not_takes (by simp [hKind]), expect,
      bind_assoc, current_bind_apply, if_neg hKind]
    rfl

/- Another item follows, or the list ends. -/
theorem items_succ (value : Parse Value) (fuel : Nat) :
    items value (fuel + 1) =
      (do
        let item ← value
        oneOf [.comma, .rightBracket] fun token =>
          if token.kind = .comma then do
            return item :: (← items value fuel)
          else
            return [item]) := by
  rw [items]
  refine bind_congr fun item => ?_
  rw [oneOf, choice]
  refine bind_congr fun token => ?_
  cases token.kind <;> rfl

/- A list is empty or has items. -/
theorem list_eq (value : Parse Value) :
    list value =
      choice (· = .rightBracket) (fun _ => return .list [])
        (do return .list (← items value (← get).fuel)) := by
  rw [list, choice]
  refine bind_congr fun token => ?_
  cases token.kind <;> rfl

/- Another field follows, or the map ends. -/
theorem fields_succ
    (value : Parse Value)
    (fuel : Nat)
    (earlier : Fields Value) :
    fields value (fuel + 1) earlier =
      (oneOf [.identifier] fun name =>
        oneOf [.colon] fun _ => do
          let item ← value
          oneOf [.comma, .rightBrace] fun token =>
            if token.kind = .comma then
              fields value fuel (earlier.set name.text item)
            else
              return earlier.set name.text item) := by
  rw [fields, expect_bind]
  refine congrArg (oneOf [.identifier]) (funext fun name => ?_)
  rw [expect_bind]
  refine congrArg (oneOf [.colon]) (funext fun _ => ?_)
  refine bind_congr fun item => ?_
  rw [oneOf, choice]
  refine bind_congr fun token => ?_
  cases token.kind <;> rfl

/- A map is empty or has fields. -/
theorem map_eq (value : Parse Value) :
    map value =
      choice (· = .rightBrace) (fun _ => return .map [])
        (do return .map (← fields value (← get).fuel [])) := by
  rw [map, choice]
  refine bind_congr fun token => ?_
  cases token.kind <;> rfl

end Embedded

------------------------------------------------------------
-- Statements And Lists
------------------------------------------------------------

namespace Production

open Parse

variable {α : Type}
variable (expression : ExpressionReader)

/- Whether a name that is assigned to begins with a token. -/
def isAssigned (token : Token) (following : TokenKind) : Bool :=
  token.kind = .identifier && assigns following

theorem name_of_isAssigned
    {token : Token}
    {following : TokenKind}
    (hAhead : isAssigned token following = true) :
    token.kind = .identifier ∧ following ≠ .endOfInput := by
  simp only [isAssigned, Bool.and_eq_true, decide_eq_true_eq]
    at hAhead
  exact hAhead.imp_right fun hAssigns hEnd => by
    rw [hEnd] at hAssigns
    cases hAssigns

/- A name is assigned to where a sign of assignment comes after it. -/
theorem statement_eq :
    statement expression =
      lookahead isAssigned
        (fun token => do
          let _ ← advance
          let _ ← advance
          let value ← expression 0
          return .assign token.text value (← spanFrom token.span))
        (expression 0) := rfl

/-
  Statements and what is done with them: they end at the
  closing token, or another one follows.
-/
theorem statements_bind
    (close : TokenKind)
    (fuel : Nat)
    (next : List (Node Span) → Parse α) :
    statements expression close (fuel + 1) >>= next =
      (do
        if ← check close then next []
        else
          let first ← statement expression
          let more := do
            let rest ← statements expression close fuel
            next (first :: rest)
          test .semicolon (fun _ => more) do
            if ← check close then next [first]
            else if (← get).previous.kind = .rightBrace then more
            else unexpected) := by
  rw [statements, bind_assoc]
  simp only [accept_bind, ite_bind, pure_bind, bind_assoc, test_bind,
    unexpected_bind, if_true, Bool.false_eq_true, if_false]

/- Another expression follows after a comma. -/
theorem commaSeparated_succ (fuel : Nat) :
    commaSeparated expression (fuel + 1) =
      (do
        let first ← expression 0
        test .comma
          (fun _ => do
            return first :: (← commaSeparated expression fuel))
          (return [first])) := by
  rw [commaSeparated]
  refine bind_congr fun first => ?_
  exact accept_bind _ _

/- An array is empty or has items. -/
theorem array_eq :
    array expression =
      (do
        let opening ← advance
        let mark := fun items => do
          return Node.array items (← spanFrom opening.span)
        test .rightBracket (fun _ => mark [])
          (do
            let items ← commaSeparated expression (← get).fuel
            test .rightBracket (fun _ => mark items) unexpected)) := by
  rw [array]
  refine bind_congr fun opening => ?_
  simp only [expect_bind]
  refine check_bind _ fun cursor hKind => ?_
  rw [if_pos rfl, pure_bind, test_of_eq hKind]

------------------------------------------------------------
-- Calls
------------------------------------------------------------

/- Another argument follows after a comma. -/
theorem namedArguments_succ
    (fuel : Nat)
    (earlier : Fields (Node Span)) :
    namedArguments expression (fuel + 1) earlier =
      (test .identifier
        (fun name =>
          either .colon .assign do
            let later := earlier.set name.text (← expression 0)
            test .comma
              (fun _ => namedArguments expression fuel later)
              (return later))
        unexpected) := by
  rw [namedArguments, expect_bind]
  refine congrArg (test .identifier · unexpected)
    (funext fun name => ?_)
  simp only [accept_bind, if_true, Bool.false_eq_true, if_false]
  exact check_or_bind .colon .assign _

/- Whether a named argument begins with a token. -/
def isNamed (token : Token) (following : TokenKind) : Bool :=
  token.kind = .identifier &&
    (following = .colon || following = .assign)

theorem sign_of_isNamed
    {token : Token}
    {following : TokenKind}
    (hAhead : isNamed token following = true) :
    token.kind = .identifier ∧
      (following = .colon ∨ following = .assign) := by
  simpa [isNamed] using hAhead

theorem name_of_isNamed
    {token : Token}
    {following : TokenKind}
    (hAhead : isNamed token following = true) :
    token.kind = .identifier ∧ following ≠ .endOfInput := by
  refine (sign_of_isNamed hAhead).imp_right fun hSign hEnd => ?_
  rw [hEnd] at hSign
  rcases hSign with hSign | hSign <;> cases hSign

/-
  Arguments are named where a sign that comes after a name
  stands after the first one.
-/
theorem call_eq (name : Text) (start : Span) :
    call expression name start =
      (do
        let _ ← advance
        test .rightParen
          (fun _ => do
            return .callNamed name [] (← spanFrom start))
          (lookahead isNamed
            (fun _ => do
              let arguments ←
                namedArguments expression (← get).fuel []
              test .rightParen
                (fun _ => do
                  return .callNamed name arguments
                    (← spanFrom start))
                unexpected)
            (do
              let arguments ←
                commaSeparated expression (← get).fuel
              test .rightParen
                (fun _ => do
                  return .call name arguments (← spanFrom start))
                unexpected))) := by
  rw [call]
  refine bind_congr fun _ => ?_
  simp only [accept_bind, expect_bind, if_true, Bool.false_eq_true,
    if_false]
  rfl

------------------------------------------------------------
-- Switches And If-Chains
------------------------------------------------------------

/- Whether a name and the token after it are a connective. -/
def isConnective
    (word : Text)
    (token : Token)
    (following : TokenKind) :
    Bool :=
  token.kind = .identifier && token.text = word &&
    following.startsOperand

theorem name_of_isConnective
    {word : Text}
    {token : Token}
    {following : TokenKind}
    (hAhead : isConnective word token following = true) :
    token.kind = .identifier ∧
      following.startsOperand = true := by
  simp only [isConnective, Bool.and_eq_true, decide_eq_true_eq]
    at hAhead
  exact ⟨hAhead.1.1, hAhead.2⟩

/- Goes on with an expression after an optional connective. -/
def afterConnective
    (word : Text)
    (next : Parse α) :
    Parse α :=
  lookahead (isConnective word) (fun _ => advance >>= fun _ => next)
    next

/- Goes on after an optional connective, however the rest is put. -/
theorem connectiveAhead_bind
    (word : Text)
    {next same : Parse α}
    (hSame : next = same) :
    (connectiveAhead word >>= fun here =>
        if here then advance >>= fun _ => next else next) =
      afterConnective word same := by
  rw [hSame]
  rfl

/- Cases and what is done with them: another one follows, or they end. -/
theorem cases_bind
    (fuel : Nat)
    (next : List (Case Span) → Parse α) :
    cases expression (fuel + 1) >>= next =
      (do
        if ← check .rightBrace then next []
        else
          afterConnective "case" do
            let guard ← expression 0
            either .colon .fatArrow do
              let result ← expression 0
              optional .semicolon do
                let rest ← cases expression fuel
                next (.mk guard result :: rest)) := by
  rw [cases, bind_assoc]
  refine bind_congr fun closed => ?_
  cases closed with
  | true => exact pure_bind _ _
  | false =>
      simp only [Bool.false_eq_true, if_false, bind_assoc,
        accept_bind, ite_bind, test_bind, pure_bind]
      refine connectiveAhead_bind _ (bind_congr fun guard => ?_)
      exact check_or_bind .colon .fatArrow _

theorem switch_eq :
    switch expression =
      (do
        let word ← advance
        test .leftBrace
          (fun _ => do
            let inner ← cases expression (← get).fuel
            let _ ← advance
            return .switch inner (← spanFrom word.span))
          unexpected) := by
  rw [switch]
  refine bind_congr fun word => ?_
  exact expect_bind _ _

/- Goes on after an arrow, a connective or neither. -/
def afterThen (next : Parse α) : Parse α :=
  test .fatArrow (fun _ => next) (afterConnective "then" next)

theorem skipThen_bind (next : Parse α) :
    (skipThen >>= fun _ => next) = afterThen next := by
  rw [skipThen, bind_assoc]
  simp only [ite_bind, bind_assoc, pure_bind]
  rw [connectiveAhead_bind "then" rfl]
  exact check_advance_bind _ _ _

/- Another step of an if-chain follows, or a last one without a guard. -/
theorem branches_succ (fuel : Nat) :
    branches expression (fuel + 1) =
      (test .leftParen
        (fun _ => do
          let guard ← expression 0
          test .rightParen
            (fun _ => afterThen do
              let first := Branch.test guard (← expression 0)
              test .elseWord
                (fun _ =>
                  test .ifWord
                    (fun _ => do
                      return first :: (← branches expression fuel))
                    (do
                      return [first,
                        .otherwise (← expression 0)]))
                (return [first]))
            unexpected)
        unexpected) := by
  simp only [branches, expect_bind, skipThen_bind, accept_bind,
    if_true, Bool.false_eq_true, if_false]

end Production

end ExperimentScript
