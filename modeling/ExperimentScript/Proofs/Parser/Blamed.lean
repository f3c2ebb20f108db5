import ExperimentScript.Proofs.Parser.Forward

/-
  Every error is about a token of the script.

  A step is `Confined` if it ends among the tokens from its
  place on and an error of it is about one of them, be it one
  about the limit of nesting or any other. This is closed under
  all ways in which productions put steps together, so that for
  a production it is found by inference.

  Key definitions include:
    * `ExperimentScript.Parse.Confined`

  Main declarations:
    * `ExperimentScript.confined_expression`
    * `ExperimentScript.found_mem_of_parseTokens`
-/

namespace ExperimentScript

------------------------------------------------------------
-- Keeping To The Tokens
------------------------------------------------------------

namespace Parse

variable {α β : Type}

/-
  From every place a step ends among the tokens from there on,
  or fails with an error about one of them.
-/
class Confined (step : Parse α) : Prop where
  ends :
    ∀ cursor : Cursor,
      step.Ends cursor
        (fun _ after => after.rest ⊆ cursor.rest)
        (fun error => error.found ∈ cursor.rest)

namespace Confined

/- What is confined to a part of the tokens is confined to them. -/
theorem within
    {step : Parse α}
    [hStep : Confined step]
    {cursor earlier : Cursor}
    (hRest : cursor.rest ⊆ earlier.rest) :
    step.Ends cursor
      (fun _ after => after.rest ⊆ earlier.rest)
      (fun error => error.found ∈ earlier.rest) :=
  (hStep.ends cursor).mono
    (fun _ _ hAfter => List.Subset.trans hAfter hRest)
    (fun _ hFound => hRest hFound)

instance {first : Parse β} {next : β → Parse α}
    [hFirst : Confined first] [∀ result, Confined (next result)] :
    Confined (first >>= next) :=
  ⟨fun cursor =>
    (ends_bind _ first next).mpr
      ((hFirst.ends cursor).mono (fun _ _ hAfter => within hAfter)
        fun _ hFound => hFound)⟩

instance (condition : Prop) [Decidable condition]
    {first second : Parse α}
    [hFirst : Confined first] [hSecond : Confined second] :
    Confined (if condition then first else second) := by
  split
  · exact hFirst
  · exact hSecond

instance (result : α) : Confined (Pure.pure result) :=
  ⟨fun _ => List.Subset.refl _⟩

instance : Confined get :=
  ⟨fun _ => List.Subset.refl _⟩

instance : Confined current :=
  ⟨fun _ => List.Subset.refl _⟩

instance : Confined followingKind :=
  ⟨fun _ => List.Subset.refl _⟩

instance (kinds : List TokenKind) : Confined (seek kinds) :=
  ⟨fun _ => List.Subset.refl _⟩

instance (kind : TokenKind) : Confined (check kind) :=
  ⟨fun _ => List.Subset.refl _⟩

instance (start : Span) : Confined (spanFrom start) :=
  ⟨fun _ => List.Subset.refl _⟩

instance : Confined advance :=
  ⟨fun cursor => cursor.rest_next_suffix.subset⟩

instance : Confined (unexpected : Parse α) :=
  ⟨fun _ => List.mem_cons_self⟩

instance (cause : SyntaxCause) : Confined (tooDeep cause : Parse α) :=
  ⟨fun _ => List.mem_cons_self⟩

instance (kind : TokenKind) : Confined (accept kind) := by
  unfold accept
  infer_instance

instance (kind : TokenKind) : Confined (expect kind) := by
  unfold expect
  infer_instance

variable {taken : Token → Parse α} {other : Parse α}
variable [∀ token, Confined (taken token)] [Confined other]

instance (takes : TokenKind → Bool) :
    Confined (choice takes taken other) := by
  unfold choice
  infer_instance

instance (kind : TokenKind) : Confined (test kind taken other) := by
  unfold test
  infer_instance

instance (kind another : TokenKind) :
    Confined (either kind another other) := by
  unfold either
  infer_instance

instance (kind : TokenKind) :
    Confined (Parse.optional kind other) := by
  unfold Parse.optional
  infer_instance

instance (ahead : Token → TokenKind → Bool) :
    Confined (lookahead ahead taken other) := by
  unfold lookahead
  infer_instance

end Confined

end Parse

------------------------------------------------------------
-- Embedded Constants
------------------------------------------------------------

namespace Embedded

open Parse

instance {α : Type} (kinds : List TokenKind) :
    Confined (unexpected kinds : Parse α) :=
  ⟨fun _ => List.mem_cons_self⟩

instance {α : Type} (kinds : List TokenKind)
    (taken : Token → Parse α) [∀ token, Confined (taken token)] :
    Confined (oneOf kinds taken) := by
  unfold oneOf
  infer_instance

section Parts

variable (value : Parse Value) [hValue : Confined value]

include hValue

theorem confined_items (fuel : Nat) :
    Confined (items value fuel) := by
  induction fuel with
  | zero =>
      unfold items
      infer_instance
  | succ fuel ih =>
      rw [items_succ]
      infer_instance

instance (fuel : Nat) : Confined (items value fuel) :=
  confined_items value fuel

instance : Confined (list value) := by
  rw [list_eq]
  infer_instance

theorem confined_fields
    (fuel : Nat)
    (earlier : Fields Value) :
    Confined (fields value fuel earlier) := by
  induction fuel generalizing earlier with
  | zero =>
      unfold fields
      infer_instance
  | succ fuel ih =>
      rw [fields_succ]
      infer_instance

instance (fuel : Nat) (earlier : Fields Value) :
    Confined (fields value fuel earlier) :=
  confined_fields value fuel earlier

instance : Confined (map value) := by
  rw [map_eq]
  infer_instance

end Parts

/- A string that is no JSON is blamed when it has been taken. -/
theorem ends_string
    (cursor : Cursor)
    (strict : Bool)
    (depth : Nat) :
    (stringValue strict depth cursor.current).Ends cursor.next
      (fun _ after => after.rest ⊆ cursor.rest)
      (fun error => error.found ∈ cursor.rest) := by
  have hNext := cursor.rest_next_suffix.subset
  rcases stringValue_cases strict depth cursor.current with
    ⟨value, hSame⟩ | ⟨_, _, _, _, hSame⟩ | hSame
  · rw [hSame]
    exact hNext
  · rw [hSame]
    exact List.mem_cons_self
  · rw [hSame]
    exact hNext List.mem_cons_self

theorem confined_value (strict : Bool) (depth : Nat) :
    Confined (value strict depth) := by
  induction depth with
  | zero =>
      unfold value
      infer_instance
  | succ depth ih =>
      refine ⟨fun cursor => ?_⟩
      rw [value, ends_bind, ends_current]
      split
      case h_5 =>
        rw [ends_bind, ends_advance]
        exact ends_string cursor strict (depth + 1)
      all_goals exact Confined.ends cursor

instance (strict : Bool) (depth : Nat) :
    Confined (value strict depth) :=
  confined_value strict depth

instance (strict : Bool) : Confined (read strict) := by
  unfold read
  infer_instance

end Embedded

------------------------------------------------------------
-- Productions
------------------------------------------------------------

namespace Production

open Parse

section Parts

variable (expression : ExpressionReader)
variable [hExpression : ∀ power, Confined (expression power)]

-- The longest productions have more parts than inference takes
-- together by default.
set_option synthInstance.maxSize 512

include hExpression

instance : Confined (statement expression) := by
  unfold statement
  infer_instance

theorem confined_statements
    (close : TokenKind)
    (fuel : Nat) :
    Confined (statements expression close fuel) := by
  induction fuel with
  | zero =>
      unfold statements
      infer_instance
  | succ fuel ih =>
      unfold statements
      infer_instance

instance (close : TokenKind) (fuel : Nat) :
    Confined (statements expression close fuel) :=
  confined_statements expression close fuel

instance : Confined (block expression) := by
  unfold block
  infer_instance

theorem confined_commaSeparated (fuel : Nat) :
    Confined (commaSeparated expression fuel) := by
  induction fuel with
  | zero =>
      unfold commaSeparated
      infer_instance
  | succ fuel ih =>
      unfold commaSeparated
      infer_instance

instance (fuel : Nat) : Confined (commaSeparated expression fuel) :=
  confined_commaSeparated expression fuel

instance : Confined (array expression) := by
  unfold array
  infer_instance

theorem confined_namedArguments
    (fuel : Nat)
    (earlier : Fields (Node Span)) :
    Confined (namedArguments expression fuel earlier) := by
  induction fuel generalizing earlier with
  | zero =>
      unfold namedArguments
      infer_instance
  | succ fuel ih =>
      unfold namedArguments
      infer_instance

instance (fuel : Nat) (earlier : Fields (Node Span)) :
    Confined (namedArguments expression fuel earlier) :=
  confined_namedArguments expression fuel earlier

instance (name : Text) (start : Span) :
    Confined (call expression name start) := by
  rw [call_eq]
  infer_instance

omit hExpression in
instance {α : Type} (word : Text) (next : Parse α)
    [Confined next] :
    Confined (afterConnective word next) := by
  unfold afterConnective
  infer_instance

omit hExpression in
instance {α : Type} (next : Parse α) [Confined next] :
    Confined (afterThen next) := by
  unfold afterThen
  infer_instance

theorem confined_cases (fuel : Nat) :
    Confined (cases expression fuel) := by
  induction fuel with
  | zero =>
      unfold cases
      infer_instance
  | succ fuel ih =>
      rw [← bind_pure (cases expression (fuel + 1)), cases_bind]
      infer_instance

instance (fuel : Nat) : Confined (cases expression fuel) :=
  confined_cases expression fuel

instance : Confined (switch expression) := by
  unfold switch
  infer_instance

omit hExpression in
instance : Confined skipThen := by
  unfold skipThen connectiveAhead
  infer_instance

theorem confined_branches (fuel : Nat) :
    Confined (branches expression fuel) := by
  induction fuel with
  | zero =>
      unfold branches
      infer_instance
  | succ fuel ih =>
      unfold branches
      infer_instance

instance (fuel : Nat) : Confined (branches expression fuel) :=
  confined_branches expression fuel

instance : Confined (ifChain expression) := by
  unfold ifChain
  infer_instance

instance (base : Node Span) : Confined (index expression base) := by
  unfold index
  infer_instance

instance (op : UnaryOp) : Confined (unary expression op) := by
  unfold unary
  infer_instance

omit hExpression in
instance (value : Value) : Confined (constant value) := by
  unfold constant
  infer_instance

omit hExpression in
instance (strict : Bool) : Confined (embedded strict) := by
  unfold embedded
  infer_instance

instance : Confined (parenthesised expression) := by
  unfold parenthesised
  infer_instance

instance : Confined (returned expression) := by
  unfold returned
  infer_instance

instance (strict : Bool) :
    Confined (operand strict expression) := by
  refine ⟨fun cursor => ?_⟩
  rw [operand, ends_bind, ends_current]
  split <;> exact Confined.ends cursor

theorem confined_operators
    (power fuel : Nat)
    (chain : Chain) :
    Confined (operators expression power fuel chain) := by
  induction fuel generalizing chain with
  | zero =>
      unfold operators
      infer_instance
  | succ fuel ih =>
      refine ⟨fun cursor => ?_⟩
      rw [operators, ends_bind, ends_seek, ends_bind, ends_current]
      dsimp only
      split
      · exact Confined.ends (cursor.seeking _)
      · exact Confined.ends (cursor.seeking _)
      · split
        · exact Confined.ends (cursor.seeking _)
        · exact Confined.ends (cursor.seeking _)

instance (power fuel : Nat) (chain : Chain) :
    Confined (operators expression power fuel chain) :=
  confined_operators expression power fuel chain

end Parts

end Production

------------------------------------------------------------
-- Scripts
------------------------------------------------------------

open Parse

theorem confined_expression
    (strict : Bool)
    (depth power : Nat) :
    Confined (expression strict depth power) := by
  induction depth generalizing power with
  | zero =>
      unfold expression
      infer_instance
  | succ depth ih =>
      unfold expression
      infer_instance

instance (strict : Bool) (depth power : Nat) :
    Confined (expression strict depth power) :=
  confined_expression strict depth power

instance (strict : Bool) : Confined (script strict) := by
  unfold script
  infer_instance

/- The token that an error is about is one of the script. -/
theorem found_mem_of_parseTokens
    {strict : Bool}
    {tokens : List Token}
    {error : SyntaxError}
    (hTokens : AreClosed tokens)
    (hError : parseTokens strict tokens = .error error) :
    error.found ∈ tokens := by
  rcases parseTokens_eq_error_iff.mp hError with ⟨after, hScript⟩
  have hConfined : Confined (script strict) := inferInstance
  have hEnds := hConfined.ends (Cursor.start tokens)
  rwa [Ends, hScript, hTokens.rest_start] at hEnds

end ExperimentScript
