import ExperimentScript.Proofs.Parser.Agree
import ExperimentScript.Proofs.Parser.Shape

/-
  Expressions read level by level.

  The grammar of expressions has a level for each row of its
  table of operators: a level is one operand of the next
  level with as many operators of its own and operands of the
  next level after it as there are. This reader has a loop of
  its own for every level. It reads the same trees as the one
  loop that compares binding powers.

  Key definitions include:
    * `ExperimentScript.TokenKind.level?`
    * `ExperimentScript.Layered.join`
    * `ExperimentScript.Layered.links`
    * `ExperimentScript.Layered.primary`
    * `ExperimentScript.Layered.level`

  Main declarations:
    * `ExperimentScript.Layered.agrees_links`
    * `ExperimentScript.Layered.agrees_operators`
    * `ExperimentScript.Layered.agrees_expression`
    * `ExperimentScript.Layered.outcome?_expression`
-/

namespace ExperimentScript

------------------------------------------------------------
-- Levels
------------------------------------------------------------

/- The level of the grammar that an operator belongs to. -/
def TokenKind.level? : TokenKind → Option Nat
  | .or | .coalesce => some 1
  | .and => some 2
  | .equal | .notEqual => some 3
  | .greater | .less | .greaterEqual | .lessEqual => some 4
  | .plus | .minus => some 5
  | .star | .slash | .percent => some 6
  | _ => none

/- The level of the operators with any number of operands. -/
def VariadicOp.level : VariadicOp → Nat
  | .or | .coalesce => 1
  | .and => 2
  | .sum => 5
  | .product => 6

namespace Layered

open Parse

------------------------------------------------------------
-- Folding To The Left
------------------------------------------------------------

/- An operator that a node is made of, with one more operand. -/
def append
    (op : VariadicOp)
    (operand : Node Span)
    (span : Span) :
    Node Span → Node Span
  | .variadic _ operands _ =>
    .variadic op (operands ++ [operand]) span
  | node => .variadic op [node, operand] span

/-
  What an operator makes of the node before it and its right
  operand, and the operator with any number of operands that
  was made. An operator that the step before has just made
  takes the operand as one more of its own.
-/
def join
    (built? : Option VariadicOp)
    (node : Node Span)
    (kind : TokenKind)
    (right : Node Span) :
    Node Span × Option VariadicOp :=
  let span := node.span.through right.span
  let operand :=
    if kind = .minus then .unary .negate right right.span
    else right
  match kind.variadic?, kind.binary? with
  | some op, _ =>
    (if built? = some op then append op operand span node
      else .variadic op [node, operand] span, some op)
  | none, some op => (.binary op node right span, none)
  | none, none =>
    (.unary .not (.binary .equals node right span) span, none)

/-
  As many operators of a level and operands after them as
  there are.
-/
def links
    (level : Nat)
    (operand : Parse (Node Span)) :
    Nat → Option VariadicOp → Node Span → Parse (Node Span)
  | 0, _, _ => unexpected
  | fuel + 1, built?, node => do
    let kind := (← current).kind
    if kind.level? = some level then
      let _ ← advance
      let right ← operand
      let (node, built?) := join built? node kind right
      links level operand fuel built? node
    else
      return node

------------------------------------------------------------
-- Operands
------------------------------------------------------------

/- What stands where an operand is asked for, whatever binds it. -/
def primary
    (strict : Bool)
    (body : Parse (Node Span)) :
    Parse (Node Span) := do
  let token ← current
  match token.kind with
  | .trueWord => Production.constant (.bool true)
  | .falseWord => Production.constant (.bool false)
  | .nullWord => Production.constant .null
  | .number | .string =>
    Production.constant (token.literal.getD .null)
  | .identifier =>
    let _ ← advance
    return .variable token.text token.span
  | .leftParen => Production.parenthesised fun _ => body
  | .leftBracket => Production.array fun _ => body
  | .leftBrace => Production.block fun _ => body
  | .at => Production.embedded strict
  | .switchWord => Production.switch fun _ => body
  | .ifWord => Production.ifChain fun _ => body
  | .returnWord => Production.returned fun _ => body
  | _ => unexpected

/- Indices, and arguments as long as there is a name to call. -/
def postfixes
    (body : Parse (Node Span)) :
    Nat → Node Span → Parse (Node Span)
  | 0, _ => unexpected
  | fuel + 1, node => do
    match (← current).kind, Production.callee? node with
    | .leftBracket, _ =>
      postfixes body fuel (← Production.index (fun _ => body) node)
    | .leftParen, some (name, span) =>
      postfixes body fuel
        (← Production.call (fun _ => body) name span)
    | _, _ => return node

/- An operand with operators before it or indices and arguments after it. -/
def prefixed
    (strict : Bool)
    (inner : Nat → Parse (Node Span)) :
    Parse (Node Span) := do
  match (← current).kind with
  | .bang => Production.unary (fun _ => inner 7) .not
  | .minus => Production.unary (fun _ => inner 7) .negate
  | _ =>
    let first ← primary strict (inner 1)
    postfixes (inner 1) (← get).fuel first

------------------------------------------------------------
-- Expressions
------------------------------------------------------------

/- The level that is so many levels above the prefixed operands. -/
def tier
    (strict : Bool)
    (inner : Nat → Parse (Node Span)) :
    Nat → Parse (Node Span)
  | 0 => prefixed strict inner
  | height + 1 => do
    let first ← tier strict inner height
    links (6 - height) (inner (7 - height)) (← get).fuel none first

/-
  An expression of a level that nests up to a given depth.
  Bodies are expressions of the first level.
-/
def level
    (strict : Bool) :
    Nat → Nat → Parse (Node Span)
  | 0, _ => tooDeep .nestedTooDeeply
  | depth + 1, start => tier strict (level strict depth) (7 - start)

end Layered

------------------------------------------------------------
-- Powers And Levels
------------------------------------------------------------

/- The binding powers of an operator count up with its level. -/
theorem TokenKind.power?_eq (kind : TokenKind) :
    kind.power? =
      kind.level?.map fun found => (2 * found - 1, 2 * found) := by
  cases kind <;> rfl

theorem TokenKind.level?_le
    {kind : TokenKind}
    {found : Nat}
    (hLevel : kind.level? = some found) :
    1 ≤ found ∧ found ≤ 6 := by
  cases kind <;> cases hLevel <;> decide

/- An operator joins into one of its own level. -/
theorem TokenKind.level?_of_variadic?
    {kind : TokenKind}
    {op : VariadicOp}
    (hVariadic : kind.variadic? = some op) :
    kind.level? = some op.level := by
  cases kind <;> cases hVariadic <;> rfl

namespace Production

/-
  A token of a kind does not continue a node where operators
  are asked to bind at least as tightly as a power.
-/
structure Stops
    (power : Nat)
    (node : Node Span)
    (kind : TokenKind) : Prop where
  noIndex : kind = .leftBracket → postfixPower < power
  noCall :
    kind = .leftParen → (callee? node).isSome → postfixPower < power
  loose :
    ∀ found, kind.level? = some found → 2 * found - 1 < power

namespace Stops

variable {power : Nat} {node : Node Span} {kind : TokenKind}

/- What stops a node stops other nodes that cannot be called. -/
theorem of_not_callable
    {other : Node Span}
    (hStops : Stops power node kind)
    (hOther : callee? other = none) :
    Stops power other kind :=
  ⟨hStops.noIndex, fun _ hCallee => by simp [hOther] at hCallee,
    hStops.loose⟩

/- What stops at the next level stops at one whose operator it is not. -/
theorem of_succ
    {level : Nat}
    (hLevel : power / 2 + 1 = level)
    (hLast : 2 * level ≤ postfixPower)
    (hStops : Stops (2 * level) node kind)
    (hKind : kind.level? ≠ some level) :
    Stops power node kind := by
  refine ⟨fun hIndex => ?_, fun hParen hCallee => ?_,
    fun found hFound => ?_⟩
  · exact absurd (hStops.noIndex hIndex) (Nat.not_lt.mpr hLast)
  · exact absurd (hStops.noCall hParen hCallee) (Nat.not_lt.mpr hLast)
  have hBelow := hStops.loose found hFound
  have hFirst := (TokenKind.level?_le hFound).1
  have hOther : found ≠ level := by
    rintro rfl
    exact hKind hFound
  omega

end Stops

------------------------------------------------------------
-- Steps Of The Loop Over Powers
------------------------------------------------------------

open Parse

variable {expression : ExpressionReader}
variable {power : Nat} {chain : Chain} {cursor : Cursor}

/- What can come after a node. -/
theorem continues_or_stops
    (power : Nat)
    (node : Node Span)
    (kind : TokenKind) :
    (kind = .leftBracket ∧ power ≤ postfixPower) ∨
      (kind = .leftParen ∧ power ≤ postfixPower ∧
        ∃ name span, callee? node = some (name, span)) ∨
      (∃ found, kind.level? = some found ∧
        power ≤ 2 * found - 1) ∨
      Stops power node kind := by
  by_cases hIndex : kind = .leftBracket ∧ power ≤ postfixPower
  · exact .inl hIndex
  by_cases hCall :
      kind = .leftParen ∧ power ≤ postfixPower ∧
        (callee? node).isSome
  · rcases Option.isSome_iff_exists.mp hCall.2.2 with
      ⟨⟨name, span⟩, hCallee⟩
    exact .inr (.inl ⟨hCall.1, hCall.2.1, name, span, hCallee⟩)
  by_cases hTight :
      ∃ found, kind.level? = some found ∧ power ≤ 2 * found - 1
  · exact .inr (.inr (.inl hTight))
  · refine .inr (.inr (.inr ⟨?_, ?_, ?_⟩))
    · intro hKind
      exact Nat.lt_of_not_le fun hLe => hIndex ⟨hKind, hLe⟩
    · intro hParen hCallee
      exact Nat.lt_of_not_le fun hLe => hCall ⟨hParen, hLe, hCallee⟩
    · intro found hFound
      exact Nat.lt_of_not_le fun hLe => hTight ⟨found, hFound, hLe⟩

/- The loop looks at binding powers where neither an index nor a call follows. -/
theorem operators_of_neither
    (hIndex :
      cursor.current.kind = .leftBracket → postfixPower < power)
    (hCall :
      cursor.current.kind = .leftParen →
        (callee? chain.node).isSome → postfixPower < power)
    (fuel : Nat) :
    operators expression power (fuel + 1) chain cursor =
      (match cursor.current.kind.power? with
        | none => return chain.node
        | some (leftPower, rightPower) =>
          if leftPower < power then
            return chain.node
          else do
            let _ ← advance
            let right ← expression rightPower
            operators expression power fuel
              (chain.combine cursor.current.kind right))
        (cursor.seeking (continuations chain.node)) := by
  rw [operators, seek_bind_apply, current_bind_apply]
  simp only [Cursor.current_seeking]
  generalize cursor.current.kind = kind at hIndex hCall ⊢
  cases kind with
  | leftBracket => simp only [if_pos (hIndex rfl), TokenKind.power?]
  | leftParen =>
      cases hCallee : callee? chain.node with
      | none => rfl
      | some found =>
          rw [hCallee] at hCall
          simp only [if_pos (hCall rfl rfl), TokenKind.power?]
  | _ => rfl

theorem operators_of_index
    (hKind : cursor.current.kind = .leftBracket)
    (hPower : power ≤ postfixPower)
    (fuel : Nat) :
    operators expression power (fuel + 1) chain cursor =
      (do
        let node ← index expression chain.node
        operators expression power fuel ⟨node, none⟩)
        (cursor.seeking (continuations chain.node)) := by
  rw [operators, seek_bind_apply, current_bind_apply]
  simp only [Cursor.current_seeking, hKind,
    if_neg (Nat.not_lt.mpr hPower)]

theorem operators_of_call
    {name : Text}
    {span : Span}
    (hKind : cursor.current.kind = .leftParen)
    (hPower : power ≤ postfixPower)
    (hCallee : callee? chain.node = some (name, span))
    (fuel : Nat) :
    operators expression power (fuel + 1) chain cursor =
      (do
        let node ← call expression name span
        operators expression power fuel ⟨node, none⟩)
        (cursor.seeking (continuations chain.node)) := by
  rw [operators, seek_bind_apply, current_bind_apply]
  simp only [Cursor.current_seeking, hKind, hCallee,
    if_neg (Nat.not_lt.mpr hPower)]

theorem operators_of_level
    {found : Nat}
    (hLevel : cursor.current.kind.level? = some found)
    (hPower : power ≤ 2 * found - 1)
    (fuel : Nat) :
    operators expression power (fuel + 1) chain cursor =
      (do
        let right ← expression (2 * found)
        operators expression power fuel
          (chain.combine cursor.current.kind right))
        cursor.next := by
  have hIndex :
      cursor.current.kind = .leftBracket → postfixPower < power := by
    intro hKind
    rw [hKind] at hLevel
    cases hLevel
  have hCall :
      cursor.current.kind = .leftParen →
        (callee? chain.node).isSome → postfixPower < power := by
    intro hKind
    rw [hKind] at hLevel
    cases hLevel
  rw [operators_of_neither hIndex hCall, TokenKind.power?_eq,
    hLevel]
  simp only [Option.map_some, Nat.not_lt.mpr hPower, if_false]
  rw [advance_bind_apply, Cursor.next_seeking]

theorem operators_of_stops
    (hStops : Stops power chain.node cursor.current.kind)
    (fuel : Nat) :
    operators expression power (fuel + 1) chain cursor =
      (pure chain.node : Parse (Node Span))
        (cursor.seeking (continuations chain.node)) := by
  rw [operators_of_neither hStops.noIndex hStops.noCall,
    TokenKind.power?_eq]
  cases hLevel : cursor.current.kind.level? with
  | none => rfl
  | some found =>
      simp only [Option.map_some, hStops.loose found hLevel,
        if_true]

/- The loop over powers ends before what does not continue its result. -/
theorem stops_of_operators
    (power fuel : Nat)
    (chain : Chain)
    (cursor : Cursor) :
    (operators expression power fuel chain).Ends cursor
      (fun node after => Stops power node after.current.kind)
      (fun _ => True) := by
  induction fuel generalizing chain cursor with
  | zero => trivial
  | succ fuel ih =>
      have hTrue :
          ∀ (step : Parse (Node Span)) place
            (next : Node Span → Chain),
            (step >>= fun node =>
              operators expression power fuel (next node)).Ends
              place
              (fun node after =>
                Stops power node after.current.kind)
              (fun _ => True) := by
        intro step place next
        rw [ends_bind]
        unfold Ends
        split
        · exact ih _ _
        · trivial
      rcases continues_or_stops power chain.node
          cursor.current.kind with
        ⟨hIndex, hBound⟩ | ⟨hParen, hBound, name, span, hCallee⟩ |
          ⟨found, hLevel, hPower⟩ | hStops
      · rw [Ends, operators_of_index hIndex hBound]
        exact hTrue _ _ _
      · rw [Ends, operators_of_call hParen hBound hCallee]
        exact hTrue _ _ _
      · rw [Ends, operators_of_level hLevel hPower]
        exact hTrue _ _ _
      · rw [Ends, operators_of_stops hStops]
        exact hStops

end Production

------------------------------------------------------------
-- Folds
------------------------------------------------------------

namespace Chain

/- What is open for operands is a node of that operator. -/
def IsOpen (chain : Chain) : Prop :=
  ∀ op, chain.open? = some op →
    ∃ operands mark, chain.node = .variadic op operands mark

theorem isOpen_none (node : Node Span) : IsOpen ⟨node, none⟩ := by
  intro op hOpen
  cases hOpen

/- An operator that is not open takes the node as an operand. -/
theorem extend_of_not_open
    {chain : Chain}
    {op : VariadicOp}
    (hOpen : chain.open? ≠ some op)
    (operand : Node Span)
    (span : Span) :
    chain.extend op operand span =
      ⟨.variadic op [chain.node, operand] span, some op⟩ := by
  unfold extend
  split
  · rw [if_neg fun hBoth => hOpen hBoth.1]
  · rfl

/- Extending makes a node of the operator, which is then open. -/
theorem extend_form
    (chain : Chain)
    (op : VariadicOp)
    (operand : Node Span)
    (span : Span) :
    ∃ operands,
      chain.extend op operand span =
        ⟨.variadic op operands span, some op⟩ := by
  unfold extend
  split
  · split
    · exact ⟨_, rfl⟩
    · exact ⟨_, rfl⟩
  · exact ⟨_, rfl⟩

/-
  Both folds make the same of an operator, if they agree on
  whether the operator was just made.
-/
theorem join_eq_combine
    {chain : Chain}
    (built? : Option VariadicOp)
    (kind : TokenKind)
    (hOpen : chain.IsOpen)
    (hBuilt :
      ∀ op, kind.variadic? = some op →
        (chain.open? = some op ↔ built? = some op))
    (right : Node Span) :
    Layered.join built? chain.node kind right =
      ((chain.combine kind right).node,
        (chain.combine kind right).open?) := by
  unfold Layered.join combine
  cases hVariadic : kind.variadic? with
  | none => cases hBinary : kind.binary? <;> rfl
  | some op =>
      simp only [hVariadic] at hBuilt
      by_cases hSame : chain.open? = some op
      · rcases hOpen op hSame with ⟨operands, mark, hNode⟩
        simp [(hBuilt op rfl).mp hSame, extend, hNode, hSame,
          Layered.append]
      · have hNew := mt (hBuilt op rfl).mpr hSame
        simp only [hNew, if_false, extend_of_not_open hSame]

/- What an operator makes cannot be called and is open for its own. -/
theorem combine_form
    (chain : Chain)
    (kind : TokenKind)
    (right : Node Span) :
    Production.callee? (chain.combine kind right).node = none ∧
      (chain.combine kind right).IsOpen ∧
      ∀ op, (chain.combine kind right).open? = some op →
        kind.variadic? = some op := by
  unfold combine
  split
  · rename_i op hVariadic
    rcases chain.extend_form op
        (if kind = .minus then .unary .negate right right.span
          else right)
        (chain.node.span.through right.span) with
      ⟨operands, hExtend⟩
    simp only [hExtend]
    refine ⟨rfl, fun found hFound => ?_, fun found hFound => ?_⟩
    · cases hFound
      exact ⟨operands, _, rfl⟩
    · cases hFound
      exact hVariadic
  · split
    · exact ⟨rfl, isOpen_none _, fun _ hOpen => nomatch hOpen⟩
    · exact ⟨rfl, isOpen_none _, fun _ hOpen => nomatch hOpen⟩

end Chain

------------------------------------------------------------
-- Loops Of One Level
------------------------------------------------------------

namespace Layered

open Parse Production

/-
  What is known of a reader of expressions by power and a
  reader by level before one more nesting is added to them.
-/
structure Faithful
    (strict : Bool)
    (expression : ExpressionReader)
    (inner : Nat → Parse (Node Span)) : Prop where
  moves :
    ∀ origin power,
      Yields origin (expression power) (Shaped strict origin)
  stops :
    ∀ power cursor,
      (expression power).Ends cursor
        (fun node after => Stops power node after.current.kind)
        (fun _ => True)
  agrees :
    ∀ power,
      power ≤ postfixPower →
        Agrees (expression power) (inner (power / 2 + 1))

variable {strict : Bool}
variable {expression : ExpressionReader}
variable {inner : Nat → Parse (Node Span)}

theorem links_of_level
    {level : Nat}
    {cursor : Cursor}
    {built? : Option VariadicOp}
    {node : Node Span}
    {operand : Parse (Node Span)}
    (hLevel : cursor.current.kind.level? = some level)
    (fuel : Nat) :
    links level operand (fuel + 1) built? node cursor =
      (do
        let right ← operand
        links level operand fuel
          (join built? node cursor.current.kind right).2
          (join built? node cursor.current.kind right).1)
        cursor.next := by
  rw [links, current_bind_apply]
  simp only [hLevel, if_true]
  rfl

theorem links_of_not_level
    {level : Nat}
    {cursor : Cursor}
    {built? : Option VariadicOp}
    {node : Node Span}
    {operand : Parse (Node Span)}
    (hLevel : cursor.current.kind.level? ≠ some level)
    (fuel : Nat) :
    links level operand (fuel + 1) built? node cursor =
      (pure node : Parse (Node Span)) cursor := by
  rw [links, current_bind_apply]
  simp only [hLevel, if_false]

/- The loop of a level does the same wherever it looked before. -/
theorem agrees_links_self
    {operand : Parse (Node Span)}
    (hOperand : Agrees operand operand)
    (level fuel : Nat)
    (built? : Option VariadicOp)
    (node : Node Span) :
    Agrees (links level operand fuel built? node)
      (links level operand fuel built? node) := by
  induction fuel generalizing built? node with
  | zero => exact .unexpected
  | succ fuel ih =>
      refine .bind .current fun token => ?_
      refine .ite (fun _ => ?_) fun _ => .pure _
      exact .bind .advance fun _ => .bind hOperand fun _ => ih _ _

/- A reader leaves less than there was before a token it comes after. -/
theorem Faithful.fuel_lt
    {cursor after : Cursor}
    {node : Node Span}
    {power : Nat}
    (hFaithful : Faithful strict expression inner)
    (hClosed : cursor.Closed)
    (hKind : cursor.current.kind ≠ .endOfInput)
    (hOk : expression power cursor.next = .ok node after) :
    after.fuel < cursor.fuel := by
  have hSuffix :=
    ((hFaithful.moves cursor.next power).of_ok
      (List.suffix_refl _) hOk).1
  have hLength := hSuffix.length_le
  simp only [Cursor.length_rest] at hLength
  exact Nat.lt_of_le_of_lt hLength (hClosed.fuel_next_lt hKind)

/-
  Past what binds tighter, the loop over powers does what the
  loop of its own level does.
-/
theorem agrees_links
    {power level fuel linkFuel : Nat}
    {built? : Option VariadicOp}
    {chain : Chain}
    {cursor other : Cursor}
    (hFaithful : Faithful strict expression inner)
    (hLevel : power / 2 + 1 = level)
    (hLast : 2 * level ≤ postfixPower)
    (hStops :
      Stops (2 * level) chain.node cursor.current.kind)
    (hOpen : chain.IsOpen)
    (hBuilt :
      ∀ op, op.level = level →
        (chain.open? = some op ↔ built? = some op))
    (hFuel : cursor.fuel ≤ fuel)
    (hLinkFuel : cursor.fuel ≤ linkFuel)
    (hAlike : cursor.Alike other)
    (hClosed : cursor.Closed) :
    AgreesAt (operators expression power fuel chain)
      (links level (inner (level + 1)) linkFuel built? chain.node)
      cursor other := by
  induction fuel generalizing
      linkFuel built? chain cursor other with
  | zero => exact absurd hFuel (Nat.not_le.mpr cursor.fuel_pos)
  | succ fuel ih =>
      obtain ⟨linkFuel, rfl⟩ : ∃ less, linkFuel = less + 1 :=
        Nat.exists_eq_succ_of_ne_zero
          (Nat.ne_of_gt
            (Nat.lt_of_lt_of_le cursor.fuel_pos hLinkFuel))
      by_cases hKind : cursor.current.kind.level? = some level
      · have hTight : power ≤ 2 * level - 1 := by omega
        refine .of_eq (operators_of_level hKind hTight fuel)
          (links_of_level (hAlike.current ▸ hKind) linkFuel) ?_
        have hRight := hFaithful.agrees (2 * level) hLast
        rw [Nat.mul_div_cancel_left level (by decide)] at hRight
        refine
          (hRight _ _ hAlike.next hClosed.next).bind
            fun right after afterOther hOk hAfter hAfterClosed => ?_
        have hSame :=
          Chain.join_eq_combine built? cursor.current.kind hOpen
            (fun op hVariadic => hBuilt op
              (Option.some.inj
                ((TokenKind.level?_of_variadic? hVariadic).symm.trans
                  hKind)))
            right
        rcases chain.combine_form cursor.current.kind right with
          ⟨hCallee, hOpenAfter, -⟩
        have hLess : after.fuel < cursor.fuel := by
          refine hFaithful.fuel_lt hClosed ?_ hOk
          intro hEnd
          rw [hEnd] at hKind
          cases hKind
        rw [← hAlike.current, hSame]
        refine ih ?_ hOpenAfter (fun op _ => Iff.rfl) ?_ ?_ hAfter
          hAfterClosed
        · exact
            ((hFaithful.stops _ _).of_ok hOk).of_not_callable
              hCallee
        · omega
        · omega
      · exact .of_eq
          (operators_of_stops (hStops.of_succ hLevel hLast hKind) fuel)
          (links_of_not_level (hAlike.current ▸ hKind) linkFuel)
          ⟨rfl, hAlike.seeking_left _, hClosed⟩

------------------------------------------------------------
-- Splitting The Loop Over Powers
------------------------------------------------------------

/- An index leaves less than there was before its bracket. -/
theorem Faithful.fuel_lt_of_index
    {cursor place after : Cursor}
    {base node : Node Span}
    (hFaithful : Faithful strict expression inner)
    (hAlike : cursor.Alike place)
    (hClosed : cursor.Closed)
    (hKind : cursor.current.kind = .leftBracket)
    (hOk : index expression base place = .ok node after) :
    after.fuel < cursor.fuel := by
  have hTail :
      Yields place.next
        (do
          let position ← expression 0
          let _ ← expect .rightBracket
          return Node.index base position
            (← spanFrom base.span))
        fun _ => True :=
    .step (hFaithful.moves _ 0) fun _ =>
      .step (.expect _) fun _ => .spanned fun _ => trivial
  have hLength := (Yields.suffix_of_advance hTail hOk).length_le
  rw [Cursor.length_rest, Cursor.length_rest,
    ← hAlike.next.fuel] at hLength
  exact Nat.lt_of_le_of_lt hLength
    (hClosed.fuel_next_lt (by simp [hKind]))

/- A call leaves less than there was before its parenthesis. -/
theorem Faithful.fuel_lt_of_call
    {cursor place after : Cursor}
    {name : Text}
    {span : Span}
    {node : Node Span}
    (hFaithful : Faithful strict expression inner)
    (hAlike : cursor.Alike place)
    (hClosed : cursor.Closed)
    (hKind : cursor.current.kind = .leftParen)
    (hOk : call expression name span place = .ok node after) :
    after.fuel < cursor.fuel := by
  rcases
      exists_call_tail (hFaithful.moves place.next) name span with
    ⟨tail, hCall, hTail⟩
  rw [hCall] at hOk
  have hLength := (Yields.suffix_of_advance hTail hOk).length_le
  rw [Cursor.length_rest, Cursor.length_rest,
    ← hAlike.next.fuel] at hLength
  exact Nat.lt_of_le_of_lt hLength
    (hClosed.fuel_next_lt (by simp [hKind]))

/- Operators that bind tighter than a level, then those of the level. -/
def thenLinks
    (level : Nat)
    (inner : Nat → Parse (Node Span))
    (node : Node Span) :
    Parse (Node Span) := do
  links level (inner (level + 1)) (← get).fuel none node

/-
  The loop over powers first does what it does for the powers
  of the next level, and then what the loop of its own level
  does.
-/
theorem agrees_operators
    {power level fuel : Nat}
    {chain : Chain}
    {cursor other : Cursor}
    (hFaithful : Faithful strict expression inner)
    (hLevel : power / 2 + 1 = level)
    (hLast : 2 * level ≤ postfixPower)
    (hOpen : chain.IsOpen)
    (hTighter : ∀ op, chain.open? = some op → level < op.level)
    (hFuel : cursor.fuel ≤ fuel)
    (hAlike : cursor.Alike other)
    (hClosed : cursor.Closed) :
    AgreesAt (operators expression power fuel chain)
      (operators expression (2 * level) fuel chain >>=
        thenLinks level inner)
      cursor other := by
  induction fuel generalizing chain cursor other with
  | zero => exact absurd hFuel (Nat.not_le.mpr cursor.fuel_pos)
  | succ fuel ih =>
      have hSelf := fun power hPower =>
        (hFaithful.agrees power hPower).refl_left
      have hPower : power ≤ postfixPower := by omega
      have hFresh :
          ∀ {node : Node Span} {after afterOther : Cursor},
            after.fuel < cursor.fuel →
            after.Alike afterOther → after.Closed →
            AgreesAt (operators expression power fuel ⟨node, none⟩)
              (operators expression (2 * level) fuel
                ⟨node, none⟩ >>= thenLinks level inner)
              after afterOther :=
        fun hLess hAfter hAfterClosed =>
          ih (Chain.isOpen_none _) (fun _ hNone => nomatch hNone)
            (by omega) hAfter hAfterClosed
      have hKinds := hAlike.current
      have hPlace :=
        hAlike.seeking (continuations chain.node)
          (continuations chain.node)
      rcases continues_or_stops (2 * level) chain.node
          cursor.current.kind with
        ⟨hIndex, -⟩ | ⟨hParen, -, name, span, hCallee⟩ |
          ⟨found, hFound, hTight⟩ | hStops
      · refine .of_eq (operators_of_index hIndex hPower fuel)
          (bind_congr_at
            (operators_of_index (hKinds ▸ hIndex) hLast fuel) _) ?_
        rw [bind_assoc]
        refine
          (agrees_index (hSelf 0 (Nat.zero_le _)) _ _ _ hPlace
            hClosed).bind
            fun node after afterOther hOk hAfter hAfterClosed => ?_
        exact hFresh
          (hFaithful.fuel_lt_of_index
            ((Cursor.Alike.refl cursor).seeking_left _).symm
            hClosed hIndex hOk)
          hAfter hAfterClosed
      · refine .of_eq (operators_of_call hParen hPower hCallee fuel)
          (bind_congr_at
            (operators_of_call (hKinds ▸ hParen) hLast hCallee fuel)
            _)
          ?_
        rw [bind_assoc]
        refine
          (agrees_call (hSelf 0 (Nat.zero_le _)) _ _ _ _ hPlace
            hClosed).bind
            fun node after afterOther hOk hAfter hAfterClosed => ?_
        exact hFresh
          (hFaithful.fuel_lt_of_call
            ((Cursor.Alike.refl cursor).seeking_left _).symm
            hClosed hParen hOk)
          hAfter hAfterClosed
      · have hAllowed : power ≤ 2 * found - 1 := by omega
        have hRight : 2 * found ≤ postfixPower := by
          have hMost := (TokenKind.level?_le hFound).2
          rw [postfixPower]
          omega
        refine .of_eq (operators_of_level hFound hAllowed fuel)
          (bind_congr_at
            (operators_of_level (hKinds ▸ hFound) hTight fuel) _)
          ?_
        rw [bind_assoc]
        refine
          (hSelf (2 * found) hRight _ _ hAlike.next hClosed.next).bind
            fun right after afterOther hOk hAfter hAfterClosed => ?_
        rcases chain.combine_form cursor.current.kind right with
          ⟨-, hOpenAfter, hMade⟩
        have hLess : after.fuel < cursor.fuel := by
          refine hFaithful.fuel_lt hClosed ?_ hOk
          intro hEnd
          rw [hEnd] at hFound
          cases hFound
        rw [← hKinds]
        refine ih hOpenAfter (fun op hOp => ?_) (by omega) hAfter
          hAfterClosed
        have hSame :=
          TokenKind.level?_of_variadic? (hMade op hOp)
        rw [hFound] at hSame
        cases hSame
        omega
      · have hRight :
            (operators expression (2 * level) (fuel + 1) chain >>=
                thenLinks level inner) other =
              links level (inner (level + 1)) other.fuel none
                chain.node
                (other.seeking (continuations chain.node)) :=
          bind_congr_at
            (operators_of_stops (hKinds ▸ hStops) fuel) _
        refine .of_eq rfl hRight ?_
        refine agrees_links hFaithful hLevel hLast hStops hOpen ?_ hFuel
          (Nat.le_of_eq hAlike.fuel)
          (hAlike.symm.seeking_left _).symm hClosed
        intro op hOp
        constructor
        · intro hSome
          have hAbove := hTighter op hSome
          omega
        · intro hNone
          cases hNone

------------------------------------------------------------
-- Prefixed Operands
------------------------------------------------------------

/- Operands without an operator before them are read alike. -/
theorem agrees_primary
    {body : Parse (Node Span)}
    {cursor other : Cursor}
    (hBody : Agrees (expression 0) body)
    (hBang : cursor.current.kind ≠ .bang)
    (hMinus : cursor.current.kind ≠ .minus)
    (hAlike : cursor.Alike other)
    (hClosed : cursor.Closed) :
    AgreesAt (operand strict expression) (primary strict body)
      cursor other := by
  refine
    (Agrees.current cursor other hAlike hClosed).bind
      fun token after afterOther hOk hAfter hAfterClosed => ?_
  obtain rfl : cursor.current = token := by
    cases hOk
    rfl
  generalize cursor.current = token at hBang hMinus ⊢
  have hReader :
      Agrees (expression 0) ((fun _ => body : ExpressionReader) 0) :=
    hBody
  cases hKind : token.kind with
  | bang => exact absurd hKind hBang
  | minus => exact absurd hKind hMinus
  | trueWord => exact agrees_constant _ _ _ hAfter hAfterClosed
  | falseWord => exact agrees_constant _ _ _ hAfter hAfterClosed
  | nullWord => exact agrees_constant _ _ _ hAfter hAfterClosed
  | number => exact agrees_constant _ _ _ hAfter hAfterClosed
  | string => exact agrees_constant _ _ _ hAfter hAfterClosed
  | identifier =>
      exact Agrees.bind .advance (fun _ => .pure _) _ _ hAfter
        hAfterClosed
  | leftParen =>
      exact agrees_parenthesised hReader _ _ hAfter hAfterClosed
  | leftBracket =>
      exact agrees_array hReader _ _ hAfter hAfterClosed
  | leftBrace =>
      exact agrees_block hReader _ _ hAfter hAfterClosed
  | «at» => exact agrees_embedded _ _ _ hAfter hAfterClosed
  | switchWord =>
      exact agrees_switch hReader _ _ hAfter hAfterClosed
  | ifWord =>
      exact agrees_ifChain hReader _ _ hAfter hAfterClosed
  | returnWord =>
      exact agrees_returned hReader _ _ hAfter hAfterClosed
  | _ => trivial

/- Where no operator binds tightly enough only indices and calls are left. -/
theorem agrees_postfixes
    {power : Nat}
    {body : Parse (Node Span)}
    (hBody : Agrees (expression 0) body)
    (hPower : 12 ≤ power)
    (hBound : power ≤ postfixPower)
    (fuel : Nat)
    (node : Node Span) :
    Agrees (operators expression power fuel ⟨node, none⟩)
      (postfixes body fuel node) := by
  have hReader :
      Agrees (expression 0) ((fun _ => body : ExpressionReader) 0) :=
    hBody
  induction fuel generalizing node with
  | zero => exact .unexpected
  | succ fuel ih =>
      intro cursor other hAlike hClosed
      have hKinds := hAlike.current
      have hPlace :=
        hAlike.seeking_left (continuations node)
      rcases continues_or_stops power node
          cursor.current.kind with
        ⟨hIndex, -⟩ | ⟨hParen, -, name, span, hCallee⟩ |
          ⟨found, hFound, hTight⟩ | hStops
      · have hRight :
            postfixes body (fuel + 1) node other =
              (index (fun _ => body) node >>=
                postfixes body fuel) other := by
          rw [postfixes, current_bind_apply, ← hKinds, hIndex]
        exact .of_eq (operators_of_index hIndex hBound fuel) hRight
          (Agrees.bind (agrees_index hReader _) ih _ _ hPlace
            hClosed)
      · have hRight :
            postfixes body (fuel + 1) node other =
              (call (fun _ => body) name span >>=
                postfixes body fuel) other := by
          rw [postfixes, current_bind_apply, ← hKinds, hParen,
            hCallee]
        exact .of_eq (operators_of_call hParen hBound hCallee fuel) hRight
          (Agrees.bind (agrees_call hReader _ _) ih _ _ hPlace
            hClosed)
      · have hLast := (TokenKind.level?_le hFound).2
        omega
      · have hRight :
            postfixes body (fuel + 1) node other =
              (pure node : Parse (Node Span)) other := by
          rw [postfixes, current_bind_apply, ← hKinds]
          rcases hStops with ⟨hIndex, hCall, -⟩
          generalize cursor.current.kind = kind at hIndex hCall ⊢
          cases kind with
          | leftBracket => exact absurd (hIndex rfl) (Nat.not_lt.mpr hBound)
          | leftParen =>
              cases hCallee : callee? node with
              | none => rfl
              | some found =>
                  rw [hCallee] at hCall
                  exact absurd (hCall rfl rfl) (Nat.not_lt.mpr hBound)
          | _ => rfl
        exact .of_eq (operators_of_stops hStops fuel) hRight
          ⟨rfl, hPlace, hClosed⟩

/- Nothing is left to continue an operand with an operator before it. -/
theorem Faithful.stops_of_unary
    {power : Nat}
    (hFaithful : Faithful strict expression inner)
    (hPower : 12 ≤ power)
    (op : UnaryOp)
    (cursor : Cursor) :
    (unary expression op).Ends cursor
      (fun node after => Stops power node after.current.kind)
      (fun _ => True) := by
  simp only [unary, ends_bind, ends_advance, ends_spanFrom,
    ends_pure]
  refine (hFaithful.stops unaryPower _).mono
    (fun operand after hStops => ?_) (fun _ hFailed => hFailed)
  refine
    ⟨fun hIndex => absurd (hStops.noIndex hIndex) (by decide),
      fun _ hCallee => absurd hCallee Bool.false_ne_true,
      fun found hFound => ?_⟩
  have hLast := (TokenKind.level?_le hFound).2
  omega

/- An operand with an operator before it is read alike. -/
theorem agrees_prefixed_unary
    {power : Nat}
    {cursor other : Cursor}
    (op : UnaryOp)
    (hFaithful : Faithful strict expression inner)
    (hPower : 12 ≤ power)
    (hOperand :
      operand strict expression cursor =
        unary expression op cursor)
    (hPrefixed :
      prefixed strict inner other =
        unary (fun _ => inner 7) op other)
    (hAlike : cursor.Alike other)
    (hClosed : cursor.Closed) :
    AgreesAt
      (do
        let first ← operand strict expression
        operators expression power (← get).fuel ⟨first, none⟩)
      (prefixed strict inner) cursor other := by
  have hRight :
      prefixed strict inner other =
        (unary (fun _ => inner 7) op >>= pure) other := by
    rw [hPrefixed, bind_pure]
  refine .of_eq (bind_congr_at hOperand _) hRight ?_
  have hUnary :
      Agrees (unary expression op) (unary (fun _ => inner 7) op) :=
    agrees_unary op (hFaithful.agrees unaryPower (by decide))
  refine (hUnary cursor other hAlike hClosed).bind
    fun node after afterOther hOk hAfter hAfterClosed => ?_
  have hStops : Stops power (Chain.mk node none).node _ :=
    (hFaithful.stops_of_unary hPower op cursor).of_ok hOk
  refine .of_eq (operators_of_stops hStops _) rfl ?_
  exact ⟨rfl, hAfter.seeking_left _, hAfterClosed⟩

/- Prefixed operands are what is read when nothing binds tightly enough. -/
theorem agrees_prefixed
    {power : Nat}
    (hFaithful : Faithful strict expression inner)
    (hPower : 12 ≤ power)
    (hBound : power ≤ postfixPower) :
    Agrees
      (do
        let first ← operand strict expression
        operators expression power (← get).fuel ⟨first, none⟩)
      (prefixed strict inner) := by
  intro cursor other hAlike hClosed
  have hKinds := hAlike.current
  by_cases hBang : cursor.current.kind = .bang
  · refine
      agrees_prefixed_unary .not hFaithful hPower ?_ ?_
        hAlike hClosed
    · rw [operand, current_bind_apply, hBang]
    · rw [prefixed, current_bind_apply, ← hKinds, hBang]
  by_cases hMinus : cursor.current.kind = .minus
  · refine
      agrees_prefixed_unary .negate hFaithful hPower ?_ ?_
        hAlike hClosed
    · rw [operand, current_bind_apply, hMinus]
    · rw [prefixed, current_bind_apply, ← hKinds, hMinus]
  have hRight :
      prefixed strict inner other =
        (do
          let first ← primary strict (inner 1)
          postfixes (inner 1) (← get).fuel first) other := by
    rw [prefixed, current_bind_apply, ← hKinds]
    generalize cursor.current.kind = kind at hBang hMinus ⊢
    cases kind <;> first
      | exact absurd rfl hBang
      | exact absurd rfl hMinus
      | rfl
  have hBody : Agrees (expression 0) (inner 1) :=
    hFaithful.agrees 0 (Nat.zero_le _)
  refine .of_eq rfl hRight ?_
  refine
    (agrees_primary hBody hBang hMinus hAlike hClosed).bind
      fun node after afterOther _ hAfter hAfterClosed => ?_
  refine .of_eq (get_bind_apply _ _) (get_bind_apply _ _) ?_
  rw [← hAfter.fuel]
  exact
    agrees_postfixes hBody hPower hBound _ node _ _ hAfter hAfterClosed

------------------------------------------------------------
-- Expressions
------------------------------------------------------------

/- The levels one after the other are the loop over powers. -/
theorem agrees_tier
    {power height : Nat}
    (hFaithful : Faithful strict expression inner)
    (hBound : power ≤ postfixPower)
    (hHeight : 7 - (power / 2 + 1) = height) :
    Agrees
      (do
        let first ← operand strict expression
        operators expression power (← get).fuel ⟨first, none⟩)
      (tier strict inner height) := by
  have hSelf := fun power hPower =>
    (hFaithful.agrees power hPower).refl_left
  induction height generalizing power with
  | zero => exact agrees_prefixed hFaithful (by omega) hBound
  | succ height ih =>
      have hLevel : power / 2 + 1 = 6 - height := by omega
      have hOperand : 7 - height = 6 - height + 1 := by omega
      have hLast : 2 * (6 - height) ≤ postfixPower := by
        rw [postfixPower]
        omega
      have hNext :
          7 - (2 * (6 - height) / 2 + 1) = height := by omega
      have hInner :
          Agrees (inner (6 - height + 1))
            (inner (6 - height + 1)) := by
        have hRight := (hFaithful.agrees _ hLast).symm
        rw [Nat.mul_div_cancel_left _ (by decide)] at hRight
        exact hRight.refl_left
      have hLinks :
          ∀ node,
            Agrees (thenLinks (6 - height) inner node)
              (thenLinks (6 - height) inner node) := by
        refine fun node => .get fun cursor other hAlike => ?_
        rw [hAlike.fuel]
        exact agrees_links_self hInner _ _ _ _
      have hTier :
          tier strict inner (height + 1) =
            tier strict inner height >>=
              thenLinks (6 - height) inner := by
        simp only [tier, hOperand]
        rfl
      rw [hTier]
      refine .trans ?_ (.bind (ih hLast hNext) hLinks)
      rw [bind_assoc]
      refine .bind
        (agrees_operand (hSelf 0 (by decide)) strict
          (hSelf unaryPower (by decide)))
        fun first cursor other hAlike hClosed => ?_
      refine .of_eq (get_bind_apply _ _)
        (bind_congr_at (get_bind_apply _ _) _) ?_
      rw [← hAlike.fuel]
      exact
        agrees_operators hFaithful hLevel hLast (Chain.isOpen_none _)
          (fun _ hNone => nomatch hNone) (Nat.le_refl _) hAlike
          hClosed

end Layered

/- An expression ends before what does not continue it. -/
theorem stops_of_expression
    (strict : Bool)
    (depth power : Nat)
    (cursor : Cursor) :
    (expression strict depth power).Ends cursor
      (fun node after =>
        Production.Stops power node after.current.kind)
      (fun _ => True) := by
  cases depth with
  | zero => trivial
  | succ depth =>
      simp only [expression, Parse.ends_bind, Parse.ends_get]
      unfold Parse.Ends
      split
      · exact Production.stops_of_operators _ _ _ _
      · trivial

namespace Layered

/-
  However deep expressions may nest, those of a power that
  indices and calls may follow are those of the level that the
  power stands before.
-/
theorem agrees_expression
    (strict : Bool)
    (depth power : Nat)
    (hBound : power ≤ postfixPower) :
    Parse.Agrees (expression strict depth power)
      (level strict depth (power / 2 + 1)) := by
  induction depth generalizing power with
  | zero => exact .tooDeep _
  | succ depth ih =>
      refine agrees_tier ⟨?_, ?_, ih⟩ hBound rfl
      · exact fun _ power => yields_expression depth power
      · exact stops_of_expression strict depth

/-
  From every place among tokens that end in their only end
  marker, the loop over powers reads a whole expression
  exactly when the levels do, with the same tree, and leaves
  the same tokens, whatever nesting is allowed.
-/
theorem outcome?_expression
    (strict : Bool)
    (depth position : Nat)
    {tokens : List Token}
    {close : Token}
    (hClose : close.kind = .endOfInput)
    (hTokens : ∀ token ∈ tokens, token.kind ≠ .endOfInput) :
    (expression strict depth 0).outcome?
        ((Cursor.start (tokens ++ [close])).skip position) =
      (level strict depth 1).outcome?
        ((Cursor.start (tokens ++ [close])).skip position) := by
  have hClosed := Cursor.Closed.start hClose hTokens
  exact (agrees_expression strict depth 0 (Nat.zero_le _)).outcome?_eq
    (hClosed.skip position)

/- The tokens of a difference whose right operand is a product. -/
def difference : List Token :=
  [(.identifier, "a"), (.minus, "-"), (.identifier, "b"),
    (.star, "*"), (.identifier, "c")].map
    fun (kind, text) => ⟨kind, text, ⟨.start, .start⟩, none⟩

/- A difference is read to its end, from its first token on. -/
theorem outcome?_expression_difference :
    ((expression true 3 0).outcome?
        (Cursor.start (difference ++ [.endAt .start]))).isSome =
          true ∧
      (expression true 3 0).outcome?
          ((Cursor.start (difference ++ [.endAt .start])).skip 0) =
        (level true 3 1).outcome?
          ((Cursor.start (difference ++ [.endAt .start])).skip 0) :=
  ⟨by rfl, outcome?_expression true 3 0 rfl (by decide)⟩

end Layered

end ExperimentScript
