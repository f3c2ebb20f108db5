import ExperimentScript.Proofs.Json.Depth
import ExperimentScript.Proofs.Json.Shallow
import ExperimentScript.Proofs.Parser.Rounds

/-
  The limit of nesting and the tokens left.

  Reading with one limit of nesting follows reading with a
  larger one: it does the same until it hits its limit. The
  limit is its room. Tokens weigh something, and to read parts
  of what stands at a place takes a token away before. So the
  limit is only hit where the tokens left weigh more than
  there is room for them.

  Without strict reading every token weighs the same, so that
  the tokens left are counted. In strict reading a string after
  an `@` is read as JSON within the same limit. Its token
  therefore weighs more than the text is long.

  Key definitions include:
    * `ExperimentScript.Token.weight`
    * `ExperimentScript.Parse.HitsLimit`
    * `ExperimentScript.Parse.FollowsAt`
    * `ExperimentScript.Parse.Follows`

  Main declarations:
    * `ExperimentScript.Cursor.weight_lenient`
    * `ExperimentScript.Parse.FollowsAt.bind`
    * `ExperimentScript.Parse.FollowsAt.advance`
    * `ExperimentScript.Embedded.follows_value`
    * `ExperimentScript.Production.followsAt_operand`
-/

namespace ExperimentScript

------------------------------------------------------------
-- Weights
------------------------------------------------------------

/-
  How deep what is read from a token can nest at most: one
  level, or as deep as the text of a string that is read as
  JSON.
-/
def Token.weight
    (strict : Bool)
    (token : Token) :
    Nat :=
  match strict, token.literal with
  | true, some (.text text) => text.length + 1
  | _, _ => 1

/- The weight of all of some tokens. -/
def Token.weights
    (strict : Bool) :
    List Token → Nat
  | [] => 0
  | token :: tokens => token.weight strict + weights strict tokens

/- The weight of the tokens from the place on. -/
def Cursor.weight
    (strict : Bool)
    (cursor : Cursor) :
    Nat :=
  Token.weights strict cursor.rest

section Weights

variable {strict : Bool}
variable {tokens others : List Token}
variable {cursor after : Cursor}

theorem Token.weight_pos (token : Token) :
    0 < token.weight strict := by
  unfold weight
  split <;> omega

/- A text that is read as JSON is shorter than its token weighs. -/
theorem Token.length_lt_weight
    {token : Token}
    {text : Text}
    (hLiteral : token.literal = some (.text text)) :
    text.length < token.weight true := by
  simp only [weight, hLiteral]
  exact Nat.lt_succ_self _

theorem Token.weight_lenient (token : Token) :
    token.weight false = 1 := by
  unfold weight
  split
  · contradiction
  · rfl

/- Where no text is read as JSON the tokens are counted. -/
theorem Token.weights_lenient (tokens : List Token) :
    weights false tokens = tokens.length := by
  induction tokens with
  | nil => rfl
  | cons token tokens ih =>
      rw [weights, ih, weight_lenient, List.length_cons, Nat.add_comm]

theorem Token.weights_le
    (hSuffix : others <:+ tokens) :
    weights strict others ≤ weights strict tokens := by
  rcases hSuffix with ⟨front, rfl⟩
  induction front with
  | nil => exact Nat.le_refl _
  | cons token front ih => exact Nat.le_trans ih (Nat.le_add_left _ _)

namespace Cursor

theorem weight_lenient (cursor : Cursor) :
    cursor.weight false = cursor.fuel :=
  Token.weights_lenient cursor.rest

theorem weight_le
    (hSuffix : after.rest <:+ cursor.rest) :
    after.weight strict ≤ cursor.weight strict :=
  Token.weights_le hSuffix

/- What comes after the token at a place weighs less. -/
theorem weight_lt
    (hSuffix : after.rest <:+ cursor.ahead) :
    after.weight strict < cursor.weight strict := by
  have hSome : 0 < cursor.current.weight strict :=
    cursor.current.weight_pos
  have hLess :
      cursor.current.weight strict + after.weight strict ≤
        cursor.weight strict :=
    Nat.add_le_add_left (Token.weights_le hSuffix) _
  omega

theorem weight_pos (cursor : Cursor) :
    0 < cursor.weight strict :=
  Nat.lt_of_lt_of_le cursor.current.weight_pos (Nat.le_add_right _ _)

end Cursor

end Weights

------------------------------------------------------------
-- Steps With A Lower Limit
------------------------------------------------------------

namespace Parse

variable {α β : Type}
variable {strict : Bool}
variable {room inner : Nat}

/- A step fails because the limit of nesting is hit. -/
def HitsLimit
    (step : Parse α)
    (cursor : Cursor) : Prop :=
  ∃ error after,
    step cursor = .error error after ∧ error.isDepthLimit = true

theorem HitsLimit.of_eq
    {step other : Parse α}
    {cursor start : Cursor}
    (hHits : step.HitsLimit cursor)
    (hSame : step cursor = other start) :
    other.HitsLimit start := by
  rwa [HitsLimit, ← hSame]

theorem hitsLimit_iff
    {step : Parse α}
    {cursor after : Cursor}
    {error : SyntaxError}
    (hError : step cursor = .error error after) :
    step.HitsLimit cursor ↔ error.isDepthLimit = true := by
  constructor
  · rintro ⟨other, stop, hOther, hLimit⟩
    cases hError.symm.trans hOther
    exact hLimit
  · exact fun hLimit => ⟨error, after, hError, hLimit⟩

/-
  From a cursor a step does the same as another one, unless it
  hits the limit of nesting, and it does not if there is room
  for the tokens left.
-/
structure FollowsAt
    (strict : Bool)
    (room : Nat)
    (step other : Parse α)
    (cursor : Cursor) : Prop where
  roomy : step.HitsLimit cursor → room < cursor.weight strict
  same : ¬ step.HitsLimit cursor → step cursor = other cursor

/- A step that does so from every place among closed tokens. -/
class Follows
    (strict : Bool)
    (room : Nat)
    (step other : Parse α) : Prop where
  follows :
    ∀ cursor : Cursor, cursor.Closed →
      FollowsAt strict room step other cursor

namespace FollowsAt

variable {step other : Parse α}
variable {cursor start : Cursor}

/- What steps do from one cursor they may do on behalf of another one. -/
theorem of_eq
    {first second : Parse α}
    (hFollows : FollowsAt strict inner step other start)
    (hRoom :
      inner < start.weight strict → room < cursor.weight strict)
    (hFirst : first cursor = step start)
    (hSecond : second cursor = other start) :
    FollowsAt strict room first second cursor where
  roomy hHits := hRoom (hFollows.roomy (hHits.of_eq hFirst))
  same hHits := by
    rw [hFirst, hSecond]
    exact hFollows.same fun hLimit => hHits (hLimit.of_eq hFirst.symm)

/- What follows a step needs no more room than is left then. -/
theorem bind
    {first another : Parse β}
    {next follow : β → Parse α}
    (hFirst : FollowsAt strict room first another cursor)
    (hNext :
      ∀ result after,
        first cursor = .ok result after →
          FollowsAt strict inner (next result) (follow result)
              after ∧
            (inner < after.weight strict →
              room < cursor.weight strict)) :
    FollowsAt strict room (first >>= next) (another >>= follow)
      cursor := by
  cases hStep : first cursor with
  | error error after =>
      have hBind := bind_of_error hStep next
      have hLimit :
          (first >>= next).HitsLimit cursor ↔
            first.HitsLimit cursor :=
        (hitsLimit_iff hBind).trans (hitsLimit_iff hStep).symm
      refine ⟨fun hHits => hFirst.roomy (hLimit.mp hHits),
        fun hHits => ?_⟩
      have hSame := hFirst.same (mt hLimit.mpr hHits)
      rw [hBind, bind_of_error (hSame ▸ hStep)]
  | ok result after =>
      have hSame : first cursor = another cursor := by
        refine hFirst.same ?_
        rintro ⟨error, stop, hError, -⟩
        cases hStep.symm.trans hError
      rcases hNext result after hStep with ⟨hFollows, hRoom⟩
      exact
        hFollows.of_eq hRoom (bind_of_ok hStep next)
          (bind_of_ok (hSame ▸ hStep) follow)

/- After a token there is room for one level less. -/
theorem advance
    {next follow : Token → Parse α}
    [hNext : ∀ token, Follows strict room (next token) (follow token)]
    (hClosed : cursor.Closed)
    (hKind : cursor.current.kind ≠ .endOfInput) :
    FollowsAt strict (room + 1) (Parse.advance >>= next)
      (Parse.advance >>= follow) cursor := by
  have hLess : cursor.next.weight strict < cursor.weight strict :=
    Cursor.weight_lt (hClosed.rest_next hKind ▸ List.suffix_refl _)
  exact
    ((hNext cursor.current).follows cursor.next hClosed.next).of_eq
      (fun hMore => by omega) (advance_bind_apply cursor next)
      (advance_bind_apply cursor follow)

theorem current
    {next follow : Token → Parse α}
    (hNext :
      FollowsAt strict room (next cursor.current)
        (follow cursor.current) cursor) :
    FollowsAt strict room (Parse.current >>= next)
      (Parse.current >>= follow) cursor :=
  hNext.of_eq id (current_bind_apply cursor next)
    (current_bind_apply cursor follow)

end FollowsAt

namespace Follows

/- With more room there is room for everything. -/
theorem mono
    {step other : Parse α}
    (hFollows : Follows strict room step other)
    (hRoom : inner ≤ room) :
    Follows strict inner step other :=
  ⟨fun cursor hClosed =>
    (hFollows.follows cursor hClosed).of_eq
      (Nat.lt_of_le_of_lt hRoom) rfl rfl⟩

/- A step that does not count how deep it nests does not hit a limit. -/
theorem of_not_hitsLimit
    {step : Parse α}
    (hPlain : ∀ cursor, ¬ step.HitsLimit cursor) :
    Follows strict room step step :=
  ⟨fun cursor _ => ⟨fun hHits => absurd hHits (hPlain cursor),
    fun _ => rfl⟩⟩

/- A step that does not fail does not hit one either. -/
theorem of_done
    {step : Parse α}
    (hDone :
      ∀ cursor, ∃ result after, step cursor = .ok result after) :
    Follows strict room step step := by
  refine of_not_hitsLimit fun cursor => ?_
  rintro ⟨error, stop, hError, -⟩
  rcases hDone cursor with ⟨result, after, hOk⟩
  cases hOk.symm.trans hError

instance {first other : Parse β} {next follow : β → Parse α}
    [hForward : Forward first]
    [hFirst : Follows strict room first other]
    [hNext : ∀ result,
      Follows strict room (next result) (follow result)] :
    Follows strict room (first >>= next) (other >>= follow) := by
  refine ⟨fun cursor hClosed => ?_⟩
  have hAfter :
      ∀ result after, first cursor = .ok result after →
        FollowsAt strict room (next result) (follow result) after ∧
          (room < after.weight strict →
            room < cursor.weight strict) := by
    intro result after hOk
    have hSuffix := (hForward.beyond cursor hClosed).of_ok hOk
    exact
      ⟨(hNext result).follows after (hClosed.of_suffix hSuffix),
        fun hMore =>
          Nat.lt_of_lt_of_le hMore (Cursor.weight_le hSuffix)⟩
  exact (hFirst.follows cursor hClosed).bind hAfter

instance (condition : Prop) [Decidable condition]
    {first second other another : Parse α}
    [hFirst : Follows strict room first other]
    [hSecond : Follows strict room second another] :
    Follows strict room (if condition then first else second)
      (if condition then other else another) := by
  split
  · exact hFirst
  · exact hSecond

instance (result : α) :
    Follows strict room (Pure.pure result) (Pure.pure result) :=
  of_done fun _ => ⟨_, _, rfl⟩

instance : Follows strict room get get :=
  of_done fun _ => ⟨_, _, rfl⟩

instance : Follows strict room Parse.current Parse.current :=
  of_done fun _ => ⟨_, _, rfl⟩

instance : Follows strict room followingKind followingKind :=
  of_done fun _ => ⟨_, _, rfl⟩

instance (kinds : List TokenKind) :
    Follows strict room (seek kinds) (seek kinds) :=
  of_done fun _ => ⟨_, _, rfl⟩

instance (kind : TokenKind) :
    Follows strict room (check kind) (check kind) :=
  of_done fun _ => ⟨_, _, rfl⟩

instance (start : Span) :
    Follows strict room (spanFrom start) (spanFrom start) :=
  of_done fun _ => ⟨_, _, rfl⟩

instance : Follows strict room Parse.advance Parse.advance :=
  of_done fun _ => ⟨_, _, rfl⟩

instance :
    Follows strict room (unexpected : Parse α) unexpected :=
  of_not_hitsLimit fun _ hHits =>
    Bool.false_ne_true ((hitsLimit_iff rfl).mp hHits)

instance (kind : TokenKind) :
    Follows strict room (accept kind) (accept kind) := by
  unfold accept
  infer_instance

instance (kind : TokenKind) :
    Follows strict room (expect kind) (expect kind) := by
  unfold expect
  infer_instance

variable {taken follow : Token → Parse α} {step other : Parse α}
variable [∀ token, Follows strict room (taken token) (follow token)]
variable [Follows strict room step other]

instance (takes : TokenKind → Bool) :
    Follows strict room (choice takes taken step)
      (choice takes follow other) := by
  unfold choice
  infer_instance

instance (kind : TokenKind) :
    Follows strict room (test kind taken step)
      (test kind follow other) := by
  unfold test
  infer_instance

instance (kind another : TokenKind) :
    Follows strict room (either kind another step)
      (either kind another other) := by
  unfold either
  infer_instance

instance (kind : TokenKind) :
    Follows strict room (Parse.optional kind step)
      (Parse.optional kind other) := by
  unfold Parse.optional
  infer_instance

instance (ahead : Token → TokenKind → Bool) :
    Follows strict room (lookahead ahead taken step)
      (lookahead ahead follow other) := by
  unfold lookahead
  infer_instance

/- A loop goes on from a round with less room or ends. -/
instance {σ : Type} {loop another : σ → Parse α}
    [hLoop : ∀ state, Follows strict room (loop state) (another state)]
    (outcome : Round σ α) :
    Follows strict room (outcome.goOn loop) (outcome.goOn another) :=
  match outcome with
  | .again state => hLoop state
  | .last _ => of_done fun _ => ⟨_, _, rfl⟩

end Follows

end Parse

------------------------------------------------------------
-- Embedded Constants
------------------------------------------------------------

namespace Embedded

open Parse

variable {strict : Bool}
variable {room : Nat}

instance {α : Type} (kinds : List TokenKind) :
    Follows strict room (unexpected kinds : Parse α)
      (unexpected kinds) :=
  .of_not_hitsLimit fun _ hHits =>
    Bool.false_ne_true ((hitsLimit_iff rfl).mp hHits)

instance {α : Type} (kinds : List TokenKind)
    {taken follow : Token → Parse α}
    [∀ token, Follows strict room (taken token) (follow token)] :
    Follows strict room (oneOf kinds taken) (oneOf kinds follow) := by
  unfold oneOf
  infer_instance

section Parts

variable (value other : Parse Value)
variable [hForward : Forward value]
variable [hValue : Follows strict room value other]

include hForward hValue

theorem follows_items (fuel : Nat) :
    Follows strict room (items value fuel) (items other fuel) := by
  induction fuel with
  | zero =>
      unfold items
      infer_instance
  | succ fuel ih =>
      rw [items_succ value, items_succ other]
      infer_instance

instance (fuel : Nat) :
    Follows strict room (items value fuel) (items other fuel) :=
  follows_items value other fuel

instance : Follows strict room (list value) (list other) := by
  rw [list_eq value, list_eq other]
  infer_instance

theorem follows_fields
    (fuel : Nat)
    (earlier : Fields Value) :
    Follows strict room (fields value fuel earlier)
      (fields other fuel earlier) := by
  induction fuel generalizing earlier with
  | zero =>
      unfold fields
      infer_instance
  | succ fuel ih =>
      rw [fields_succ value, fields_succ other]
      infer_instance

instance (fuel : Nat) (earlier : Fields Value) :
    Follows strict room (fields value fuel earlier)
      (fields other fuel earlier) :=
  follows_fields value other fuel earlier

instance : Follows strict room (map value) (map other) := by
  rw [map_eq value, map_eq other]
  infer_instance

end Parts

/-
  With a lower limit a string stands for the same, unless it is
  read as JSON and too long to be sure not to hit the limit.
-/
theorem stringValue_eq_or
    {depth larger : Nat}
    (hDepth : depth ≤ larger)
    (token : Token) :
    (depth < token.weight strict ∧
        ∀ cursor, (stringValue strict depth token).HitsLimit cursor) ∨
      (stringValue strict depth token =
          stringValue strict larger token ∧
        ∀ cursor,
          ¬ (stringValue strict depth token).HitsLimit cursor) := by
  unfold stringValue
  split
  · rename_i text hLiteral
    by_cases hLimit :
        Json.decode depth text = .error .nestedTooDeeply
    · have hLong : depth ≤ text.length :=
        Nat.le_of_not_lt fun hShort =>
          Json.decode_ne_nestedTooDeeply hShort hLimit
      have hWeight := Token.length_lt_weight hLiteral
      rw [hLimit]
      exact
        .inl ⟨Nat.lt_of_le_of_lt hLong hWeight,
          fun _ => ⟨_, _, rfl, rfl⟩⟩
    · rw [← (Json.decode_eq_or hDepth text).resolve_left hLimit]
      refine .inr ⟨rfl, fun cursor hHits => ?_⟩
      split at hHits
      · rcases hHits with ⟨error, after, hError, -⟩
        cases hError
      · exact Bool.false_ne_true ((hitsLimit_iff rfl).mp hHits)
      · contradiction
  · refine .inr ⟨rfl, fun cursor hHits => ?_⟩
    rcases hHits with ⟨error, after, hError, -⟩
    cases hError

/- A string nests no deeper than it weighs. -/
theorem followsAt_string
    {depth larger : Nat}
    {cursor : Cursor}
    (hDepth : depth ≤ larger) :
    FollowsAt strict depth
      (do
        let _ ← advance
        stringValue strict depth cursor.current)
      (do
        let _ ← advance
        stringValue strict larger cursor.current) cursor := by
  have hTaken := advance_bind_apply cursor
    fun _ => stringValue strict depth cursor.current
  rcases stringValue_eq_or hDepth cursor.current with
    ⟨hLong, hHits⟩ | ⟨hSame, hPlain⟩
  · constructor
    · exact fun _ => Nat.lt_of_lt_of_le hLong (Nat.le_add_right _ _)
    · exact fun hPlain =>
        absurd ((hHits cursor.next).of_eq hTaken.symm) hPlain
  · constructor
    · exact fun hHits => absurd (hHits.of_eq hTaken) (hPlain _)
    · intro _
      rw [hSame]

/-
  A lower limit of nesting is followed, by induction on it: a
  list or a map takes its first token.
-/
theorem follows_value
    {depth larger : Nat}
    (hDepth : depth ≤ larger) :
    Follows strict depth (value strict depth)
      (value strict larger) := by
  induction depth generalizing larger with
  | zero =>
      refine ⟨fun cursor _ => ⟨fun _ => cursor.weight_pos, ?_⟩⟩
      exact fun hHits => absurd ⟨_, _, rfl, rfl⟩ hHits
  | succ depth ih =>
      obtain ⟨larger, rfl⟩ : ∃ less, larger = less + 1 :=
        Nat.exists_eq_succ_of_ne_zero (by omega)
      have hLess := ih (Nat.le_of_succ_le_succ hDepth)
      refine ⟨fun cursor hClosed => .current ?_⟩
      generalize hKind : cursor.current.kind = kind
      cases kind
      case string => exact followsAt_string hDepth
      case leftBracket | leftBrace | identifier | number | trueWord |
          falseWord | nullWord =>
        exact .advance hClosed (by rw [hKind]; decide)
      all_goals exact Follows.follows cursor hClosed

end Embedded

------------------------------------------------------------
-- Productions
------------------------------------------------------------

namespace Production

open Parse

variable {strict : Bool}
variable {room : Nat}

section Parts

variable (reader other : ExpressionReader)
variable [hForward : ∀ power, Forward (reader power)]
variable
  [hReader : ∀ power, Follows strict room (reader power) (other power)]

-- The longest productions have more parts than inference takes
-- together by default.
set_option synthInstance.maxSize 1024

include hForward hReader

instance : Follows strict room (statement reader) (statement other) := by
  unfold statement
  infer_instance

theorem follows_statements
    (close : TokenKind)
    (fuel : Nat) :
    Follows strict room (statements reader close fuel)
      (statements other close fuel) := by
  induction fuel with
  | zero =>
      unfold statements
      infer_instance
  | succ fuel ih =>
      unfold statements
      infer_instance

instance (close : TokenKind) (fuel : Nat) :
    Follows strict room (statements reader close fuel)
      (statements other close fuel) :=
  follows_statements reader other close fuel

theorem follows_commaSeparated (fuel : Nat) :
    Follows strict room (commaSeparated reader fuel)
      (commaSeparated other fuel) := by
  induction fuel with
  | zero =>
      unfold commaSeparated
      infer_instance
  | succ fuel ih =>
      unfold commaSeparated
      infer_instance

instance (fuel : Nat) :
    Follows strict room (commaSeparated reader fuel)
      (commaSeparated other fuel) :=
  follows_commaSeparated reader other fuel

theorem follows_namedArguments
    (fuel : Nat)
    (earlier : Fields (Node Span)) :
    Follows strict room (namedArguments reader fuel earlier)
      (namedArguments other fuel earlier) := by
  induction fuel generalizing earlier with
  | zero =>
      unfold namedArguments
      infer_instance
  | succ fuel ih =>
      unfold namedArguments
      infer_instance

instance (fuel : Nat) (earlier : Fields (Node Span)) :
    Follows strict room (namedArguments reader fuel earlier)
      (namedArguments other fuel earlier) :=
  follows_namedArguments reader other fuel earlier

instance (name : Text) (start : Span) :
    Follows strict room (call reader name start)
      (call other name start) := by
  rw [call_eq reader, call_eq other]
  infer_instance

omit hForward hReader in
instance {α : Type} (word : Text) {next follow : Parse α}
    [Follows strict room next follow] :
    Follows strict room (afterConnective word next)
      (afterConnective word follow) := by
  unfold afterConnective
  infer_instance

theorem follows_cases (fuel : Nat) :
    Follows strict room (cases reader fuel) (cases other fuel) := by
  induction fuel with
  | zero =>
      unfold cases
      infer_instance
  | succ fuel ih =>
      rw [← bind_pure (cases reader (fuel + 1)),
        ← bind_pure (cases other (fuel + 1)), cases_bind, cases_bind]
      infer_instance

instance (fuel : Nat) :
    Follows strict room (cases reader fuel) (cases other fuel) :=
  follows_cases reader other fuel

omit hForward hReader in
instance : Follows strict room skipThen skipThen := by
  unfold skipThen connectiveAhead
  infer_instance

theorem follows_branches (fuel : Nat) :
    Follows strict room (branches reader fuel)
      (branches other fuel) := by
  induction fuel with
  | zero =>
      unfold branches
      infer_instance
  | succ fuel ih =>
      dsimp only [branches]
      infer_instance

instance (fuel : Nat) :
    Follows strict room (branches reader fuel) (branches other fuel) :=
  follows_branches reader other fuel

instance (base : Node Span) :
    Follows strict room (index reader base) (index other base) := by
  unfold index
  infer_instance

/- Before a part of an operand is read a token is taken. -/
theorem followsAt_operand
    {cursor : Cursor}
    (hClosed : cursor.Closed)
    (hKind : cursor.current.kind ≠ .at) :
    FollowsAt strict (room + 1) (operand strict reader)
      (operand strict other) cursor := by
  refine .current ?_
  generalize hHere : cursor.current.kind = kind at hKind
  cases kind
  case «at» => exact absurd rfl hKind
  case bang | minus | trueWord | falseWord | nullWord | number |
      string | identifier | leftParen | leftBracket | leftBrace |
      switchWord | ifWord | returnWord =>
    exact .advance hClosed (by rw [hHere]; decide)
  all_goals exact Follows.follows cursor hClosed

instance (power : Nat) (chain : Chain) (kind : TokenKind) :
    Follows strict room (operatorRound reader power chain kind)
      (operatorRound other power chain kind) := by
  unfold operatorRound
  split
  · infer_instance
  · infer_instance
  · split
    · infer_instance
    · infer_instance

theorem follows_operators
    (power fuel : Nat)
    (chain : Chain) :
    Follows strict room (operators reader power fuel chain)
      (operators other power fuel chain) := by
  induction fuel generalizing chain with
  | zero =>
      unfold operators
      infer_instance
  | succ fuel ih =>
      rw [operators_unfolds reader, operators_unfolds other]
      unfold operatorsRound
      infer_instance

instance (power fuel : Nat) (chain : Chain) :
    Follows strict room (operators reader power fuel chain)
      (operators other power fuel chain) :=
  follows_operators reader other power fuel chain

end Parts

end Production

end ExperimentScript
