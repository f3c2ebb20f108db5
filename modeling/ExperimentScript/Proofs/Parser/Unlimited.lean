import ExperimentScript.Proofs.Parser.Room
import ExperimentScript.Proofs.Parser.Traced

/-
  Reading moves on and ends without a limit of nesting.

  The readers are given with any limit in place of the one
  that a script is read with. All of them move on: whatever
  they read takes a token, and so does every round of a loop
  after which the loop goes on. So from some limit on reading
  comes to the same, and it hits no limit. Such a limit can be
  told from the tokens left. What is read with a lower limit
  is the same, if that is not hit.

  Key definitions include:
    * `ExperimentScript.expressionWithin`
    * `ExperimentScript.parseWithin`
    * `ExperimentScript.Production.MovesOn`
    * `ExperimentScript.Embedded.MovesOn`
    * `ExperimentScript.ComesTo`
    * `ExperimentScript.ReadsToEnd`

  Main declarations:
    * `ExperimentScript.follows_expressionWithin`
    * `ExperimentScript.comesTo_parseWithin`
    * `ExperimentScript.standsAt_of_scriptWithin`
    * `ExperimentScript.readsToEnd_of_areClosed`
-/

namespace ExperimentScript

open Parse

------------------------------------------------------------
-- Reading With Any Limit
------------------------------------------------------------

namespace Production

/- A constant after an `@` that nests up to a limit. -/
def embeddedWithin
    (strict : Bool)
    (limit : Nat) :
    Parse (Node Span) := do
  let sign ← advance
  let value ← Embedded.value strict limit
  return .literal value true (← spanFrom sign.span)

/- An operand in which embedded constants nest up to a limit. -/
def operandWithin
    (strict : Bool)
    (limit : Nat)
    (reader : ExpressionReader) :
    Parse (Node Span) := do
  let token ← current
  if token.kind = .at then embeddedWithin strict limit
  else operand strict reader

end Production

/-
  An expression that nests up to a given depth, and embedded
  constants in it up to a limit.
-/
def expressionWithin
    (strict : Bool)
    (limit : Nat) :
    Nat → ExpressionReader
  | 0, _ => tooDeep .nestedTooDeeply
  | depth + 1, power => do
    let first ←
      Production.operandWithin strict limit
        (expressionWithin strict limit depth)
    Production.operators (expressionWithin strict limit depth) power
      (← get).fuel ⟨first, none⟩

/- The statements of a script, with a limit of nesting. -/
def scriptWithin
    (strict : Bool)
    (limit : Nat) :
    Parse (Node Span) := do
  let statements ←
    Production.statements (expressionWithin strict limit limit)
      .endOfInput (← get).fuel
  let close := (← current).span
  return .sequence statements ⟨.start, close.last⟩

/- The tree of the tokens of a script, with a limit of nesting. -/
def parseWithin
    (strict : Bool)
    (limit : Nat)
    (tokens : List Token) :
    Except SyntaxError (Node Span) :=
  match (scriptWithin strict limit).run (Cursor.start tokens) with
  | .ok tree _ => .ok tree
  | .error error _ => .error error

section Same

variable (strict : Bool)

theorem Production.operandWithin_eq (reader : ExpressionReader) :
    operandWithin strict Embedded.maxDepth reader =
      operand strict reader := by
  funext cursor
  rw [operandWithin, current_bind_apply]
  split
  · rename_i hKind
    rw [operand, current_bind_apply, hKind]
    rfl
  · rfl

/- Scripts are read with the limit of embedded constants. -/
theorem expressionWithin_eq :
    expressionWithin strict Embedded.maxDepth = expression strict := by
  funext depth
  induction depth with
  | zero => rfl
  | succ depth ih =>
      funext power
      rw [expressionWithin, expression, ih,
        Production.operandWithin_eq]

theorem scriptWithin_eq :
    scriptWithin strict maxDepth = script strict := by
  have hSame : expressionWithin strict maxDepth = expression strict :=
    expressionWithin_eq strict
  rw [scriptWithin, script, hSame]

theorem parseWithin_eq :
    parseWithin strict maxDepth = parseTokens strict := by
  funext tokens
  have hSame := congrFun (scriptWithin_eq strict) (Cursor.start tokens)
  cases hRun : script strict (Cursor.start tokens) with
  | ok tree after =>
      simp only [parseWithin, parseTokens, EStateM.run, hSame, hRun]
  | error error after =>
      simp only [parseWithin, parseTokens, EStateM.run, hSame, hRun]

end Same

------------------------------------------------------------
-- Moving On
------------------------------------------------------------

section Moving

variable (strict : Bool) (limit : Nat)

namespace Production

instance : Forward (embeddedWithin strict limit) := by
  unfold embeddedWithin
  infer_instance

section Operands

variable (reader : ExpressionReader)
variable [hReader : ∀ power, Forward (reader power)]

include hReader

instance : Forward (operandWithin strict limit reader) := by
  unfold operandWithin
  infer_instance

instance gains_operandWithin :
    Gains (operandWithin strict limit reader) := by
  refine ⟨fun {cursor node after} hClosed hOk => ?_⟩
  rw [operandWithin, current_bind_apply] at hOk
  split at hOk
  · rename_i hKind
    exact Gains.of_advance hClosed (by rw [hKind]; decide) hOk
  · exact (gains_operand strict reader).gains hClosed hOk

end Operands

end Production

theorem forward_expressionWithin (depth power : Nat) :
    Forward (expressionWithin strict limit depth power) := by
  induction depth generalizing power with
  | zero =>
      unfold expressionWithin
      infer_instance
  | succ depth ih =>
      unfold expressionWithin
      infer_instance

instance (depth power : Nat) :
    Forward (expressionWithin strict limit depth power) :=
  forward_expressionWithin strict limit depth power

instance gains_expressionWithin (depth power : Nat) :
    Gains (expressionWithin strict limit depth power) := by
  cases depth with
  | zero => exact ⟨fun _ hOk => by cases hOk⟩
  | succ depth =>
      unfold expressionWithin
      infer_instance

end Moving

/-
  Among tokens a reader of expressions moves on: statements and
  expressions take a token, and so do the rounds of the loops
  over parts that are read with it.
-/
structure Production.MovesOn
    (tokens : List Token)
    (reader : ExpressionReader) : Prop where
  statement : Advances tokens (statement reader)
  expression : ∀ power, Advances tokens (reader power)
  statements :
    ∀ close,
      IsLoop tokens (statementsRound reader close)
        fun fuel before => behind before (statements reader close fuel)
  operators :
    ∀ power,
      IsLoop tokens (operatorsRound reader power)
        (operators reader power)
  commaSeparated :
    IsLoop tokens (commaSeparatedRound reader) fun fuel before =>
      behind before (commaSeparated reader fuel)
  namedArguments :
    IsLoop tokens (namedArgumentsRound reader)
      (namedArguments reader)
  cases :
    IsLoop tokens (casesRound reader) fun fuel before =>
      behind before (cases reader fuel)
  branches :
    IsLoop tokens (branchesRound reader) fun fuel before =>
      behind before (branches reader fuel)

/- A reader of embedded constants does so too. -/
structure Embedded.MovesOn
    (tokens : List Token)
    (reader : Parse Value) : Prop where
  value : Advances tokens reader
  items :
    IsLoop tokens (itemsRound reader) fun fuel before =>
      behind before (items reader fuel)
  fields : IsLoop tokens (fieldsRound reader) (fields reader)

section MovesOn

variable {tokens : List Token}
variable (hTokens : AreClosed tokens)

include hTokens

theorem Production.movesOn
    (reader : ExpressionReader)
    [∀ power, Forward (reader power)]
    [∀ power, Gains (reader power)] :
    MovesOn tokens reader where
  statement := Gains.advances hTokens _
  expression _ := Gains.advances hTokens _
  statements := isLoop_statements reader hTokens
  operators := isLoop_operators reader hTokens
  commaSeparated := isLoop_commaSeparated reader hTokens
  namedArguments := isLoop_namedArguments reader hTokens
  cases := isLoop_cases reader hTokens
  branches := isLoop_branches reader hTokens

theorem Embedded.movesOn
    (reader : Parse Value)
    [Forward reader]
    [Gains reader] :
    MovesOn tokens reader where
  value := Gains.advances hTokens _
  items := isLoop_items reader hTokens
  fields := isLoop_fields reader hTokens

end MovesOn

------------------------------------------------------------
-- Lower Limits
------------------------------------------------------------

section Limits

variable {strict : Bool}
variable {room limit larger depth deeper : Nat}

/- Embedded constants need no more room than other operands. -/
theorem Production.followsAt_operandWithin
    {cursor : Cursor}
    (reader other : ExpressionReader)
    [∀ power, Forward (reader power)]
    [∀ power, Follows strict room (reader power) (other power)]
    (hRoom : room ≤ limit)
    (hLimit : limit ≤ larger)
    (hClosed : cursor.Closed) :
    FollowsAt strict (room + 1) (operandWithin strict limit reader)
      (operandWithin strict larger other) cursor := by
  refine .current ?_
  by_cases hKind : cursor.current.kind = .at
  · have hValue :
        Follows strict room (Embedded.value strict limit)
          (Embedded.value strict larger) :=
      (Embedded.follows_value hLimit).mono hRoom
    rw [if_pos hKind, if_pos hKind]
    exact .advance hClosed (by rw [hKind]; decide)
  · rw [if_neg hKind, if_neg hKind]
    exact followsAt_operand reader other hClosed hKind

/-
  A lower limit is followed, by induction on the depth: what
  comes after an operand has less room, and fewer tokens.
-/
theorem follows_expressionWithin
    (hDepth : depth ≤ deeper)
    (hRoom : depth ≤ limit)
    (hLimit : limit ≤ larger)
    (power : Nat) :
    Follows strict depth (expressionWithin strict limit depth power)
      (expressionWithin strict larger deeper power) := by
  induction depth generalizing deeper power with
  | zero =>
      refine ⟨fun cursor _ => ⟨fun _ => cursor.weight_pos, ?_⟩⟩
      exact fun hHits => absurd ⟨_, _, rfl, rfl⟩ hHits
  | succ depth ih =>
      obtain ⟨deeper, rfl⟩ : ∃ less, deeper = less + 1 :=
        Nat.exists_eq_succ_of_ne_zero (by omega)
      have hParts (power : Nat) :=
        ih (Nat.le_of_succ_le_succ hDepth) (Nat.le_of_succ_le hRoom)
          power
      unfold expressionWithin
      refine ⟨fun cursor hClosed => ?_⟩
      have hOperand :
          FollowsAt strict (depth + 1)
            (Production.operandWithin strict limit
              (expressionWithin strict limit depth))
            (Production.operandWithin strict larger
              (expressionWithin strict larger deeper)) cursor :=
        Production.followsAt_operandWithin _ _
          (Nat.le_of_succ_le hRoom) hLimit hClosed
      have hOperators (first : Node Span) :
          Follows strict depth
            (do
              Production.operators
                (expressionWithin strict limit depth) power
                (← get).fuel ⟨first, none⟩)
            (do
              Production.operators
                (expressionWithin strict larger deeper) power
                (← get).fuel ⟨first, none⟩) :=
        inferInstance
      refine hOperand.bind fun first after hOk =>
        ⟨(hOperators first).follows after ?_, fun hMore => ?_⟩
      · have hAfter := Gains.gains hClosed hOk
        exact hClosed.of_suffix (hAfter.trans (List.suffix_cons _ _))
      · have hLess : after.weight strict < cursor.weight strict :=
          Cursor.weight_lt (Gains.gains hClosed hOk)
        omega

/- Limits that leave room for the tokens left make no difference. -/
theorem settles_expressionWithin
    {cursor : Cursor}
    (hClosed : cursor.Closed)
    (hLimit : cursor.weight strict ≤ limit)
    (hDepth : cursor.weight strict ≤ depth)
    (power : Nat) :
    ¬ (expressionWithin strict limit depth power).HitsLimit cursor ∧
      expressionWithin strict limit depth power cursor =
        expressionWithin strict (cursor.weight strict)
          (cursor.weight strict) power cursor := by
  have hFollows :
      FollowsAt strict (cursor.weight strict)
        (expressionWithin strict (cursor.weight strict)
          (cursor.weight strict) power)
        (expressionWithin strict limit depth power) cursor :=
    (follows_expressionWithin hDepth (Nat.le_refl _) hLimit
      power).follows cursor hClosed
  have hPlain := mt hFollows.roomy (Nat.lt_irrefl _)
  have hSame := hFollows.same hPlain
  exact ⟨fun hHits => hPlain (hHits.of_eq hSame.symm), hSame.symm⟩

theorem follows_scriptWithin
    (hLimit : limit ≤ larger) :
    Follows strict limit (scriptWithin strict limit)
      (scriptWithin strict larger) := by
  have hParts (power : Nat) :
      Follows strict limit (expressionWithin strict limit limit power)
        (expressionWithin strict larger larger power) :=
    follows_expressionWithin hLimit (Nat.le_refl limit) hLimit power
  unfold scriptWithin
  infer_instance

end Limits

------------------------------------------------------------
-- What Reading Comes To
------------------------------------------------------------

section Outcomes

variable {strict : Bool}
variable {limit larger : Nat}
variable {tokens : List Token}

theorem weight_start
    (hTokens : AreClosed tokens) :
    (Cursor.start tokens).weight strict =
      Token.weights strict tokens := by
  rw [Cursor.weight, hTokens.rest_start]

/- A parse tells of a limit where reading hits it. -/
theorem hitsLimit_scriptWithin_iff :
    (scriptWithin strict limit).HitsLimit (Cursor.start tokens) ↔
      ∃ error,
        parseWithin strict limit tokens = .error error ∧
          error.isDepthLimit = true := by
  unfold HitsLimit parseWithin EStateM.run
  cases scriptWithin strict limit (Cursor.start tokens) <;> simp

theorem parseWithin_congr
    (hSame :
      scriptWithin strict limit (Cursor.start tokens) =
        scriptWithin strict larger (Cursor.start tokens)) :
    parseWithin strict limit tokens =
      parseWithin strict larger tokens := by
  unfold parseWithin EStateM.run
  rw [hSame]

/-
  Without a limit of nesting tokens come to an outcome, which
  tells of no limit. It is that of every limit that is not
  less than what the tokens weigh, and that of a lower one
  unless the limit is hit.
-/
structure ComesTo
    (strict : Bool)
    (tokens : List Token)
    (outcome : Except SyntaxError (Node Span)) : Prop where
  settles :
    ∀ limit,
      Token.weights strict tokens ≤ limit →
        parseWithin strict limit tokens = outcome
  unlimited :
    ∀ error, outcome = .error error → error.isDepthLimit = false
  limited :
    ∀ limit,
      parseWithin strict limit tokens = outcome ∨
        ∃ error,
          parseWithin strict limit tokens = .error error ∧
            error.isDepthLimit = true

variable (hTokens : AreClosed tokens)

include hTokens

/- From the start a lower limit is followed. -/
theorem followsAt_start
    (hLimit : limit ≤ larger) :
    FollowsAt strict limit (scriptWithin strict limit)
      (scriptWithin strict larger) (Cursor.start tokens) :=
  (follows_scriptWithin hLimit).follows _ hTokens.closed_start

/- A lower limit comes to the same if it is not hit. -/
theorem parseWithin_eq_or
    (hLimit : limit ≤ larger) :
    parseWithin strict limit tokens =
        parseWithin strict larger tokens ∨
      ∃ error,
        parseWithin strict limit tokens = .error error ∧
          error.isDepthLimit = true := by
  rw [← hitsLimit_scriptWithin_iff]
  by_cases hHits :
      (scriptWithin strict limit).HitsLimit (Cursor.start tokens)
  · exact .inr hHits
  · have hSame := (followsAt_start hTokens hLimit).same hHits
    exact .inl (parseWithin_congr hSame)

/- A limit that is not less than what the tokens weigh is not hit. -/
theorem isDepthLimit_of_weights_le
    {error : SyntaxError}
    (hRoom : Token.weights strict tokens ≤ limit)
    (hError : parseWithin strict limit tokens = .error error) :
    error.isDepthLimit = false := by
  by_contra hLimit
  have hHits :=
    hitsLimit_scriptWithin_iff.mpr
      ⟨error, hError, Bool.of_not_eq_false hLimit⟩
  have hMore :=
    (followsAt_start hTokens (Nat.le_refl limit)).roomy hHits
  rw [weight_start hTokens] at hMore
  omega

theorem parseWithin_eq_of_weights_le
    (hRoom : Token.weights strict tokens ≤ limit)
    (hLimit : limit ≤ larger) :
    parseWithin strict limit tokens =
      parseWithin strict larger tokens := by
  refine (parseWithin_eq_or hTokens hLimit).resolve_right ?_
  rintro ⟨error, hError, hDeep⟩
  rw [isDepthLimit_of_weights_le hTokens hRoom hError] at hDeep
  cases hDeep

/- What tokens come to is told by a limit of what they weigh. -/
theorem comesTo_parseWithin :
    ComesTo strict tokens
      (parseWithin strict (Token.weights strict tokens) tokens) where
  settles limit hRoom :=
    (parseWithin_eq_of_weights_le hTokens (Nat.le_refl _) hRoom).symm
  unlimited error hError :=
    isDepthLimit_of_weights_le hTokens (Nat.le_refl _) hError
  limited limit := by
    rcases Nat.le_total limit (Token.weights strict tokens) with
      hLess | hRoom
    · exact parseWithin_eq_or hTokens hLess
    · left
      exact
        (parseWithin_eq_of_weights_le hTokens (Nat.le_refl _)
          hRoom).symm

/- A script is read up to its last token, which marks the end. -/
theorem standsAt_of_scriptWithin
    {tree : Node Span}
    {after : Cursor}
    (hOk :
      scriptWithin strict limit (Cursor.start tokens) =
        .ok tree after) :
    after.current.kind = .endOfInput ∧
      after.StandsAt tokens (tokens.length - 1) := by
  rw [scriptWithin, get_bind_apply] at hOk
  cases hRun :
      Production.statements (expressionWithin strict limit limit)
        .endOfInput (Cursor.start tokens).fuel
        (Cursor.start tokens) with
  | error error stop =>
      rw [bind_of_error hRun] at hOk
      cases hOk
  | ok nodes stop =>
      rw [bind_of_ok hRun] at hOk
      cases hOk
      have hKind := (Production.ends_statements _ _ _ _).of_ok hRun
      have hSuffix :=
        (Forward.beyond _ hTokens.closed_start).of_ok hRun
      rw [hTokens.rest_start] at hSuffix
      have hStands := Cursor.standsAt_of_suffix hSuffix
      have hLast := hStands.eq_of_closed hTokens hKind
      rw [← hLast, Nat.add_sub_cancel]
      exact ⟨hKind, hStands⟩

end Outcomes

------------------------------------------------------------
-- Reading To The End
------------------------------------------------------------

/-
  Reading goes to the end of tokens. What it reads takes a token,
  and so does every round of a loop that goes on. With limits
  that are not less than what the tokens left weigh it comes to
  the same from every place, so that without a limit there is
  an outcome. A tree is only formed at the last token.
-/
structure ReadsToEnd
    (strict : Bool)
    (tokens : List Token) : Prop where
  expressions :
    ∀ depth, Production.MovesOn tokens (expression strict depth)
  constants :
    ∀ depth, Embedded.MovesOn tokens (Embedded.value strict depth)
  unlimited :
    ∀ limit depth,
      Production.MovesOn tokens (expressionWithin strict limit depth)
  settles :
    ∀ cursor index power limit depth,
      cursor.StandsAt tokens index →
        cursor.weight strict ≤ limit →
          cursor.weight strict ≤ depth →
            ¬ (expressionWithin strict limit depth power).HitsLimit
                cursor ∧
              expressionWithin strict limit depth power cursor =
                expressionWithin strict (cursor.weight strict)
                  (cursor.weight strict) power cursor
  comesTo : ∃ outcome, ComesTo strict tokens outcome
  limited :
    script strict = scriptWithin strict maxDepth ∧
      parseTokens strict tokens = parseWithin strict maxDepth tokens
  ends :
    ∀ limit tree after,
      scriptWithin strict limit (Cursor.start tokens) =
          .ok tree after →
        after.current.kind = .endOfInput ∧
          after.StandsAt tokens (tokens.length - 1)

/- Tokens that the only end among them closes are read to that end. -/
theorem readsToEnd_of_areClosed
    {tokens : List Token}
    (hTokens : AreClosed tokens)
    (strict : Bool) :
    ReadsToEnd strict tokens where
  expressions _ := Production.movesOn hTokens _
  constants _ := Embedded.movesOn hTokens _
  unlimited _ _ := Production.movesOn hTokens _
  settles _ _ power _ _ hStands hLimit hDepth :=
    settles_expressionWithin (hStands.closed hTokens) hLimit hDepth
      power
  comesTo := ⟨_, comesTo_parseWithin hTokens⟩
  limited :=
    ⟨(scriptWithin_eq strict).symm,
      congrFun (parseWithin_eq strict).symm tokens⟩
  ends _ _ _ hOk := standsAt_of_scriptWithin hTokens hOk

/- A string that is read as JSON, and a call. -/
theorem readsToEnd_of_areClosed_call :
    ∃ tokens tree,
      tokenize "x = @'[1]'; f(y[0])" = .ok tokens ∧
        parseTokens true tokens = .ok tree ∧
        AreClosed tokens ∧ ReadsToEnd true tokens := by
  have hParses :
      (parse true "x = @'[1]'; f(y[0])").toOption.isSome = true := by
    decide +kernel
  cases hTree : parse true "x = @'[1]'; f(y[0])" with
  | error error =>
      rw [hTree] at hParses
      cases hParses
  | ok tree =>
      rcases exists_of_parse hTree with ⟨tokens, hTokens, hScript⟩
      have hClosed := areClosed_of_tokenize hTokens
      exact
        ⟨tokens, tree, hTokens, hScript, hClosed,
          readsToEnd_of_areClosed hClosed true⟩

end ExperimentScript
