import ExperimentScript.Proofs.Parser.Progress

/-
  The loops of reading, round by round.

  Statements, items, arguments, cases, the steps of an
  if-chain and the operators between operands are read in
  loops. A round either ends the loop with its result or goes
  on with what has been read so far. It goes on only at a
  later token than it has begun at. A loop therefore ends by
  itself: the fuel that bounds its rounds does not matter as
  soon as there is as much of it as tokens are left.

  Key definitions include:
    * `ExperimentScript.Parse.Round`
    * `ExperimentScript.Parse.IsLoop`

  Main declarations:
    * `ExperimentScript.Parse.IsLoop.of_round`
    * `ExperimentScript.Production.isLoop_statements`
    * `ExperimentScript.Production.isLoop_operators`
    * `ExperimentScript.Production.isLoop_cases`
    * `ExperimentScript.Embedded.isLoop_fields`
-/

namespace ExperimentScript

namespace Parse

variable {α β σ : Type}

------------------------------------------------------------
-- Rounds
------------------------------------------------------------

/- What a round comes to: a state to go on with, or a result. -/
inductive Round (σ α : Type) where
  | again (state : σ)
  | last (result : α)

/- What follows a round of a loop. -/
def Round.goOn (loop : σ → Parse α) : Round σ α → Parse α
  | .again state => loop state
  | .last result => pure result

/-
  A loop over tokens is made of rounds. If it goes on after a
  round it does so at a later token, and it needs no more fuel
  than tokens are left.
-/
structure IsLoop
    (tokens : List Token)
    (round : σ → Parse (Round σ α))
    (loop : Nat → σ → Parse α) : Prop where
  unfolds :
    ∀ fuel state,
      loop (fuel + 1) state =
        round state >>= Round.goOn (loop fuel)
  advances :
    ∀ state cursor index next after,
      cursor.StandsAt tokens index →
        round state cursor = .ok (.again next) after →
          ∃ later, index < later ∧ after.StandsAt tokens later
  ends :
    ∀ state cursor index fuel,
      cursor.StandsAt tokens index →
        tokens.length - index ≤ fuel →
          loop fuel state cursor =
            loop (tokens.length - index) state cursor

/- A round that goes on only where a token has been taken. -/
class GoesOn (round : Parse (Round σ α)) : Prop where
  goesOn :
    ∀ {cursor next after},
      cursor.Closed → round cursor = .ok (.again next) after →
        after.rest <:+ cursor.ahead

section Loops

variable {round : σ → Parse (Round σ α)}
variable {loop : Nat → σ → Parse α}
variable [hForward : ∀ state, Forward (round state)]
variable [hGoesOn : ∀ state, GoesOn (round state)]
variable
  (hUnfolds :
    ∀ fuel state,
      loop (fuel + 1) state =
        round state >>= Round.goOn (loop fuel))

include hForward hGoesOn hUnfolds

/- Enough fuel makes no difference, by induction on it. -/
theorem ends_of_goesOn
    {fuel other : Nat}
    {state : σ}
    {cursor : Cursor}
    (hClosed : cursor.Closed)
    (hFuel : cursor.fuel ≤ fuel)
    (hOther : cursor.fuel ≤ other) :
    loop fuel state cursor = loop other state cursor := by
  have hPositive := cursor.fuel_pos
  induction fuel generalizing other state cursor with
  | zero => omega
  | succ fuel ih =>
      obtain ⟨other, rfl⟩ : ∃ less, other = less + 1 :=
        Nat.exists_eq_succ_of_ne_zero (by omega)
      rw [hUnfolds, hUnfolds]
      cases hRound : round state cursor with
      | error error after =>
          rw [bind_of_error hRound, bind_of_error hRound]
      | ok outcome after =>
          rw [bind_of_ok hRound, bind_of_ok hRound]
          cases outcome with
          | last result => rfl
          | again next =>
              have hSuffix :=
                ((hForward state).beyond cursor hClosed).of_ok hRound
              have hLength :=
                ((hGoesOn state).goesOn hClosed hRound).length_le
              have hFewer : after.fuel < cursor.fuel :=
                Nat.lt_succ_of_le hLength
              exact
                ih (hClosed.of_suffix hSuffix) (by omega) (by omega)
                  after.fuel_pos

theorem IsLoop.of_round
    {tokens : List Token}
    (hTokens : AreClosed tokens) :
    IsLoop tokens round loop where
  unfolds := hUnfolds
  advances := by
    intro state cursor index next after hStands hRound
    exact
      hStands.later
        ((hGoesOn state).goesOn (hStands.closed hTokens) hRound)
  ends := by
    intro state cursor index fuel hStands hFuel
    have hLeft := hStands.fuel_eq
    exact
      ends_of_goesOn hUnfolds (hStands.closed hTokens) (by omega)
        (by omega)

end Loops

namespace GoesOn

variable {step : Parse (Round σ α)}

/- A round that takes a token first. -/
instance [hStep : Gains step] : GoesOn step :=
  ⟨fun hClosed hOk => hStep.gains hClosed hOk⟩

/- A round that may end the loop where a token stands that closes it. -/
instance (kind : TokenKind) (result : α) [hStep : GoesOn step] :
    GoesOn (Parse.check kind >>= fun here =>
      if here then pure (.last result) else step) := by
  refine ⟨fun {cursor next after} hClosed hOk => ?_⟩
  rw [check_bind_apply] at hOk
  split at hOk
  · cases hOk
  · have hGone : after.rest <:+ (cursor.seeking [kind]).ahead :=
      hStep.goesOn hClosed hOk
    exact hGone

end GoesOn

end Parse

------------------------------------------------------------
-- Lists
------------------------------------------------------------

namespace Parse

variable {α : Type}

/- What is left of a list is read behind what has been read of it. -/
def behind
    (before : List α)
    (step : Parse (List α)) :
    Parse (List α) :=
  (before ++ ·) <$> step

end Parse

------------------------------------------------------------
-- Statements
------------------------------------------------------------

namespace Production

open Parse

variable {tokens : List Token}
variable (reader : ExpressionReader)

/- A statement more, unless the statements end before or after it. -/
def statementsRound
    (close : TokenKind)
    (before : List (Node Span)) :
    Parse (Round (List (Node Span)) (List (Node Span))) := do
  if ← check close then
    return .last before
  else
    let first ← statement reader
    if ← accept .semicolon then
      return .again (before ++ [first])
    else if ← check close then
      return .last (before ++ [first])
    else if (← get).previous.kind = .rightBrace then
      return .again (before ++ [first])
    else
      unexpected

theorem statements_unfolds
    (close : TokenKind)
    (fuel : Nat)
    (before : List (Node Span)) :
    behind before (statements reader close (fuel + 1)) =
      statementsRound reader close before >>=
        Round.goOn fun before =>
          behind before (statements reader close fuel) := by
  simp only [behind, map_eq_pure_bind, statements_bind,
    statementsRound, bind_assoc, accept_bind, ite_bind, pure_bind,
    test_bind, unexpected_bind, Round.goOn, if_true,
    Bool.false_eq_true, if_false, List.append_nil,
    List.append_assoc, List.singleton_append]

/- One expression more, and another one after a comma. -/
def commaSeparatedRound
    (before : List (Node Span)) :
    Parse (Round (List (Node Span)) (List (Node Span))) := do
  let first ← reader 0
  if ← accept .comma then
    return .again (before ++ [first])
  else
    return .last (before ++ [first])

theorem commaSeparated_unfolds
    (fuel : Nat)
    (before : List (Node Span)) :
    behind before (commaSeparated reader (fuel + 1)) =
      commaSeparatedRound reader before >>=
        Round.goOn fun before =>
          behind before (commaSeparated reader fuel) := by
  simp only [behind, map_eq_pure_bind, commaSeparated_succ,
    commaSeparatedRound, bind_assoc, accept_bind, pure_bind,
    test_bind, Round.goOn, if_true, Bool.false_eq_true, if_false,
    List.append_assoc, List.singleton_append]

/- One named argument more, and another one after a comma. -/
def namedArgumentsRound
    (before : Fields (Node Span)) :
    Parse (Round (Fields (Node Span)) (Fields (Node Span))) := do
  let name ← expect .identifier
  if !(← check .colon) then
    if !(← check .assign) then
      unexpected
  let _ ← advance
  let after := before.set name.text (← reader 0)
  if ← accept .comma then
    return .again after
  else
    return .last after

theorem namedArguments_unfolds
    (fuel : Nat)
    (before : Fields (Node Span)) :
    namedArguments reader (fuel + 1) before =
      namedArgumentsRound reader before >>=
        Round.goOn (namedArguments reader fuel) := by
  simp only [namedArguments, namedArgumentsRound, bind_assoc,
    ite_bind, pure_bind, unexpected_bind, Round.goOn]

/- One case more, unless the cases end before it. -/
def casesRound
    (before : List (Case Span)) :
    Parse (Round (List (Case Span)) (List (Case Span))) := do
  if ← check .rightBrace then
    return .last before
  else
    if ← connectiveAhead "case" then
      let _ ← advance
    let guard ← reader 0
    if !(← check .colon) then
      if !(← check .fatArrow) then
        unexpected
    let _ ← advance
    let result ← reader 0
    let _ ← accept .semicolon
    return .again (before ++ [.mk guard result])

/- A case is a guard after an optional connective, and a result. -/
theorem casesRound_eq (before : List (Case Span)) :
    casesRound reader before =
      (check .rightBrace >>= fun closed =>
        if closed then pure (.last before)
        else
          afterConnective "case" do
            let guard ← reader 0
            either .colon .fatArrow do
              let result ← reader 0
              let _ ← accept .semicolon
              return .again (before ++ [.mk guard result])) := by
  rw [casesRound]
  refine bind_congr fun closed => ?_
  cases closed with
  | true => rfl
  | false =>
      refine connectiveAhead_bind _ (bind_congr fun guard => ?_)
      exact check_or_bind .colon .fatArrow _

theorem cases_unfolds
    (fuel : Nat)
    (before : List (Case Span)) :
    behind before (cases reader (fuel + 1)) =
      casesRound reader before >>=
        Round.goOn fun before =>
          behind before (cases reader fuel) := by
  simp only [behind, map_eq_pure_bind, cases, casesRound, bind_assoc,
    ite_bind, pure_bind, unexpected_bind, Round.goOn,
    List.append_nil, List.append_assoc, List.singleton_append]

/- One step of an if-chain more, and another one after `else if`. -/
def branchesRound
    (before : List (Branch Span)) :
    Parse (Round (List (Branch Span)) (List (Branch Span))) := do
  let _ ← expect .leftParen
  let guard ← reader 0
  let _ ← expect .rightParen
  skipThen
  let consequence ← reader 0
  let first := Branch.test guard consequence
  if ← accept .elseWord then
    if ← accept .ifWord then
      return .again (before ++ [first])
    else
      return .last (before ++ [first, .otherwise (← reader 0)])
  else
    return .last (before ++ [first])

theorem branches_unfolds
    (fuel : Nat)
    (before : List (Branch Span)) :
    behind before (branches reader (fuel + 1)) =
      branchesRound reader before >>=
        Round.goOn fun before =>
          behind before (branches reader fuel) := by
  simp only [behind, map_eq_pure_bind, branches, branchesRound,
    bind_assoc, ite_bind, pure_bind, Round.goOn, List.append_assoc,
    List.singleton_append]

/-
  An operator of a given kind with what it takes, unless it
  does not follow or does not bind tightly enough.
-/
def operatorRound
    (power : Nat)
    (chain : Chain)
    (kind : TokenKind) :
    Parse (Round Chain (Node Span)) :=
  match kind, callee? chain.node with
  | .leftBracket, _ =>
    if postfixPower < power then
      return .last chain.node
    else do
      return .again ⟨← index reader chain.node, none⟩
  | .leftParen, some (name, span) =>
    if postfixPower < power then
      return .last chain.node
    else do
      return .again ⟨← call reader name span, none⟩
  | _, _ =>
    match kind.power? with
    | none => return .last chain.node
    | some (leftPower, rightPower) =>
      if leftPower < power then
        return .last chain.node
      else do
        let _ ← advance
        let right ← reader rightPower
        return .again (chain.combine kind right)

/- One operator more, unless none follows. -/
def operatorsRound
    (power : Nat)
    (chain : Chain) :
    Parse (Round Chain (Node Span)) := do
  seek (continuations chain.node)
  operatorRound reader power chain (← current).kind

theorem operators_unfolds
    (power fuel : Nat)
    (chain : Chain) :
    operators reader power (fuel + 1) chain =
      operatorsRound reader power chain >>=
        Round.goOn (operators reader power fuel) := by
  rw [operators, operatorsRound, bind_assoc]
  refine bind_congr fun _ => ?_
  rw [bind_assoc]
  refine bind_congr fun token => ?_
  unfold operatorRound
  generalize token.kind = kind
  generalize callee? chain.node = callee
  cases kind <;> cases callee <;>
    simp only [TokenKind.power?, ite_bind, bind_assoc, pure_bind,
      Round.goOn]

section Rounds

-- The longest rounds have more parts than inference takes together
-- by default.
set_option synthInstance.maxSize 512

variable [hForward : ∀ power, Forward (reader power)]

include hForward

instance (close : TokenKind) (before : List (Node Span)) :
    Forward (statementsRound reader close before) := by
  unfold statementsRound
  infer_instance

instance (before : List (Node Span)) :
    Forward (commaSeparatedRound reader before) := by
  unfold commaSeparatedRound
  infer_instance

instance (before : Fields (Node Span)) :
    Forward (namedArgumentsRound reader before) := by
  dsimp only [namedArgumentsRound]
  infer_instance

instance (before : List (Case Span)) :
    Forward (casesRound reader before) := by
  rw [casesRound_eq]
  infer_instance

instance (before : List (Branch Span)) :
    Forward (branchesRound reader before) := by
  dsimp only [branchesRound]
  infer_instance

/- A name comes before every argument. -/
instance (before : Fields (Node Span)) :
    GoesOn (namedArgumentsRound reader before) := by
  dsimp only [namedArgumentsRound]
  infer_instance

/- A parenthesis comes before every guard of an if-chain. -/
instance (before : List (Branch Span)) :
    GoesOn (branchesRound reader before) := by
  dsimp only [branchesRound]
  infer_instance

instance (power : Nat) (chain : Chain) (kind : TokenKind) :
    Forward (operatorRound reader power chain kind) := by
  unfold operatorRound
  split
  · infer_instance
  · infer_instance
  · split
    · infer_instance
    · infer_instance

instance (power : Nat) (chain : Chain) :
    Forward (operatorsRound reader power chain) := by
  unfold operatorsRound
  infer_instance

/- Every operator takes a token of its own. -/
theorem gains_operatorRound
    {power : Nat}
    {chain next : Chain}
    {kind : TokenKind}
    {cursor after : Cursor}
    (hClosed : cursor.Closed)
    (hKind : cursor.current.kind = kind)
    (hOk :
      operatorRound reader power chain kind cursor =
        .ok (.again next) after) :
    after.rest <:+ cursor.ahead := by
  generalize hStep : operatorRound reader power chain kind = step
    at hOk
  unfold operatorRound at hStep
  split at hStep
  · split at hStep
    · subst hStep
      cases hOk
    · subst hStep
      exact
        Gains.of_beyond hClosed (by rw [hKind]; decide)
          ((beyond_index reader hClosed _).bind hClosed.next) hOk
  · split at hStep
    · subst hStep
      cases hOk
    · subst hStep
      exact
        Gains.of_beyond hClosed (by rw [hKind]; decide)
          ((beyond_call reader hClosed _ _).bind hClosed.next) hOk
  · split at hStep
    · subst hStep
      cases hOk
    · rename_i hPower
      split at hStep
      · subst hStep
        cases hOk
      · subst hStep
        refine Gains.of_advance hClosed (fun hEnd => ?_) hOk
        rw [← hKind, hEnd] at hPower
        cases hPower

instance (power : Nat) (chain : Chain) :
    GoesOn (operatorsRound reader power chain) := by
  refine ⟨fun {cursor next after} hClosed hOk => ?_⟩
  rw [operatorsRound, seek_bind_apply] at hOk
  have hGone :
      after.rest <:+
        (cursor.seeking (continuations chain.node)).ahead :=
    gains_operatorRound reader hClosed rfl hOk
  exact hGone

variable [hGains : ∀ power, Gains (reader power)]

include hGains

instance (close : TokenKind) (before : List (Node Span)) :
    GoesOn (statementsRound reader close before) := by
  unfold statementsRound
  infer_instance

instance (before : List (Node Span)) :
    GoesOn (commaSeparatedRound reader before) := by
  unfold commaSeparatedRound
  infer_instance

instance (before : List (Case Span)) :
    GoesOn (casesRound reader before) := by
  rw [casesRound_eq]
  infer_instance

end Rounds

------------------------------------------------------------
-- Loops
------------------------------------------------------------

section Loops

variable (hTokens : AreClosed tokens)
variable [hForward : ∀ power, Forward (reader power)]

include hTokens hForward

theorem isLoop_namedArguments :
    IsLoop tokens (namedArgumentsRound reader)
      (namedArguments reader) :=
  .of_round (namedArguments_unfolds reader) hTokens

theorem isLoop_branches :
    IsLoop tokens (branchesRound reader) fun fuel before =>
      behind before (branches reader fuel) :=
  .of_round (branches_unfolds reader) hTokens

theorem isLoop_operators (power : Nat) :
    IsLoop tokens (operatorsRound reader power)
      (operators reader power) :=
  .of_round (operators_unfolds reader power) hTokens

variable [hGains : ∀ power, Gains (reader power)]

include hGains

theorem isLoop_statements (close : TokenKind) :
    IsLoop tokens (statementsRound reader close)
      fun fuel before =>
        behind before (statements reader close fuel) :=
  .of_round (statements_unfolds reader close) hTokens

theorem isLoop_commaSeparated :
    IsLoop tokens (commaSeparatedRound reader) fun fuel before =>
      behind before (commaSeparated reader fuel) :=
  .of_round (commaSeparated_unfolds reader) hTokens

theorem isLoop_cases :
    IsLoop tokens (casesRound reader) fun fuel before =>
      behind before (cases reader fuel) :=
  .of_round (cases_unfolds reader) hTokens

end Loops

end Production

------------------------------------------------------------
-- Embedded Constants
------------------------------------------------------------

namespace Embedded

open Parse

variable {tokens : List Token}
variable (value : Parse Value)

/- Nothing follows a failure. -/
theorem unexpected_bind
    {α β : Type}
    (kinds : List TokenKind)
    (next : α → Parse β) :
    unexpected kinds >>= next = unexpected kinds := rfl

/- One item more, and another one after a comma. -/
def itemsRound
    (before : List Value) :
    Parse (Round (List Value) (List Value)) := do
  let item ← value
  match (← current).kind with
  | .comma =>
    let _ ← advance
    return .again (before ++ [item])
  | .rightBracket =>
    let _ ← advance
    return .last (before ++ [item])
  | _ => unexpected [.comma, .rightBracket]

/- A comma or a bracket comes after an item. -/
theorem itemsRound_eq (before : List Value) :
    itemsRound value before =
      (do
        let item ← value
        oneOf [.comma, .rightBracket] fun token =>
          if token.kind = .comma then
            return .again (before ++ [item])
          else
            return .last (before ++ [item])) := by
  rw [itemsRound]
  refine bind_congr fun item => ?_
  rw [oneOf, choice]
  refine bind_congr fun token => ?_
  cases token.kind <;> rfl

theorem items_unfolds
    (fuel : Nat)
    (before : List Value) :
    behind before (items value (fuel + 1)) =
      itemsRound value before >>=
        Round.goOn fun before => behind before (items value fuel) := by
  simp only [behind, map_eq_pure_bind, items_succ, itemsRound_eq,
    bind_assoc, oneOf, choice_bind, ite_bind, pure_bind,
    unexpected_bind, Round.goOn, List.append_assoc,
    List.singleton_append]

/- One field more, and another one after a comma. -/
def fieldsRound
    (before : Fields Value) :
    Parse (Round (Fields Value) (Fields Value)) := do
  let name ← expect .identifier
  let _ ← expect .colon
  let after := before.set name.text (← value)
  match (← current).kind with
  | .comma =>
    let _ ← advance
    return .again after
  | .rightBrace =>
    let _ ← advance
    return .last after
  | _ => unexpected [.comma, .rightBrace]

/- A comma or a brace comes after a field. -/
theorem fieldsRound_eq (before : Fields Value) :
    fieldsRound value before =
      (do
        let name ← expect .identifier
        let _ ← expect .colon
        let item ← value
        oneOf [.comma, .rightBrace] fun token =>
          if token.kind = .comma then
            return .again (before.set name.text item)
          else
            return .last (before.set name.text item)) := by
  rw [fieldsRound]
  refine bind_congr fun name => bind_congr fun _ => ?_
  refine bind_congr fun item => ?_
  rw [oneOf, choice]
  refine bind_congr fun token => ?_
  cases token.kind <;> rfl

theorem fields_unfolds
    (fuel : Nat)
    (before : Fields Value) :
    fields value (fuel + 1) before =
      fieldsRound value before >>=
        Round.goOn (fields value fuel) := by
  simp only [fields_succ, fieldsRound_eq, bind_assoc, expect_bind,
    oneOf, choice_bind, ite_bind, pure_bind, unexpected_bind,
    Round.goOn]

section Loops

variable (hTokens : AreClosed tokens)
variable [hForward : Forward value]

include hForward

omit hForward in
instance (kind : TokenKind) : Forward (expect kind) := by
  unfold expect
  infer_instance

instance (before : List Value) : Forward (itemsRound value before) := by
  rw [itemsRound_eq]
  infer_instance

instance (before : Fields Value) :
    Forward (fieldsRound value before) := by
  rw [fieldsRound_eq]
  infer_instance

instance (before : Fields Value) :
    GoesOn (fieldsRound value before) := by
  rw [fieldsRound_eq]
  infer_instance

instance (before : List Value) [hGains : Gains value] :
    GoesOn (itemsRound value before) := by
  rw [itemsRound_eq]
  infer_instance

include hTokens

theorem isLoop_fields :
    IsLoop tokens (fieldsRound value) (fields value) :=
  .of_round (fields_unfolds value) hTokens

theorem isLoop_items [hGains : Gains value] :
    IsLoop tokens (itemsRound value) fun fuel before =>
      behind before (items value fuel) :=
  .of_round (items_unfolds value) hTokens

end Loops

end Embedded

end ExperimentScript
