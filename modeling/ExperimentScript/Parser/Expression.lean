import ExperimentScript.Parser.Embedded
import ExperimentScript.Parser.Operators

/-
  Reading expressions and statements.

  Each production takes the reader of smaller expressions as
  an argument; `expression` ties them together and counts
  how deep they nest. Lists of parts are read with fuel that
  exceeds the number of tokens left, so it never runs out.

  Key definitions include:
    * `ExperimentScript.ExpressionReader`
    * `ExperimentScript.Production.operand`
    * `ExperimentScript.Production.operators`
    * `ExperimentScript.Production.statements`
    * `ExperimentScript.expression`
-/

namespace ExperimentScript

/- A reader of expressions whose operators bind at least as tightly as a number says. -/
abbrev ExpressionReader := Nat → Parse (Node Span)

namespace Production

open Parse

------------------------------------------------------------
-- Statements
------------------------------------------------------------

/- Whether a kind separates a name from the value assigned to it. -/
def assigns (kind : TokenKind) : Bool :=
  kind = .assign || kind = .arrowAssign

/- An assignment or an expression. -/
def statement (expression : ExpressionReader) : Parse (Node Span) := do
  let token ← current
  if token.kind = .identifier && assigns (← followingKind) then
    let _ ← advance
    let _ ← advance
    let value ← expression 0
    return .assign token.text value (← spanFrom token.span)
  else
    expression 0

/-
  Statements up to a closing token, which is not taken. A
  statement that ends in a closing brace needs no semicolon
  after it.
-/
def statements
    (expression : ExpressionReader)
    (close : TokenKind) :
    Nat → Parse (List (Node Span))
  | 0 => unexpected
  | fuel + 1 => do
    if ← check close then
      return []
    else
      let first ← statement expression
      if ← accept .semicolon then
        return first :: (← statements expression close fuel)
      else if ← check close then
        return [first]
      else if (← get).previous.kind = .rightBrace then
        return first :: (← statements expression close fuel)
      else
        unexpected

/- Statements between braces. -/
def block (expression : ExpressionReader) : Parse (Node Span) := do
  let opening ← advance
  let inner ← statements expression .rightBrace (← get).fuel
  let _ ← expect .rightBrace
  return .sequence inner (← spanFrom opening.span)

------------------------------------------------------------
-- Lists Of Expressions
------------------------------------------------------------

/- Expressions with commas between them, at least one. -/
def commaSeparated
    (expression : ExpressionReader) :
    Nat → Parse (List (Node Span))
  | 0 => unexpected
  | fuel + 1 => do
    let first ← expression 0
    if ← accept .comma then
      return first :: (← commaSeparated expression fuel)
    else
      return [first]

/- Expressions between brackets. -/
def array (expression : ExpressionReader) : Parse (Node Span) := do
  let opening ← advance
  let items ←
    if ← check .rightBracket then pure []
    else commaSeparated expression (← get).fuel
  let _ ← expect .rightBracket
  return .array items (← spanFrom opening.span)

------------------------------------------------------------
-- Calls
------------------------------------------------------------

/-
  Named arguments with commas between them, added to the
  arguments before them.
-/
def namedArguments
    (expression : ExpressionReader) :
    Nat → Fields (Node Span) → Parse (Fields (Node Span))
  | 0, _ => unexpected
  | fuel + 1, before => do
    let name ← expect .identifier
    if !(← check .colon) then
      if !(← check .assign) then
        unexpected
    let _ ← advance
    let after := before.set name.text (← expression 0)
    if ← accept .comma then
      namedArguments expression fuel after
    else
      return after

/- Whether named arguments begin at the place. -/
def namedArgumentAhead : Parse Bool := do
  let following ← followingKind
  return (← current).kind = .identifier &&
    (following = .colon || following = .assign)

/-
  The arguments of an operator after its name. Arguments are
  all named or all positional, and none counts as named.
-/
def call
    (expression : ExpressionReader)
    (name : Text)
    (start : Span) :
    Parse (Node Span) := do
  let _ ← advance
  if ← accept .rightParen then
    return .callNamed name [] (← spanFrom start)
  else if ← namedArgumentAhead then
    let arguments ← namedArguments expression (← get).fuel []
    let _ ← expect .rightParen
    return .callNamed name arguments (← spanFrom start)
  else
    let arguments ← commaSeparated expression (← get).fuel
    let _ ← expect .rightParen
    return .call name arguments (← spanFrom start)

------------------------------------------------------------
-- Switches And If-Chains
------------------------------------------------------------

/-
  Whether an identifier at the place is a connective: it is
  one only before a token that can begin an expression.
-/
def connectiveAhead (word : Text) : Parse Bool := do
  let token ← current
  return token.kind = .identifier && token.text = word &&
    (← followingKind).startsOperand

/- Cases up to the closing brace, which is not taken. -/
def cases
    (expression : ExpressionReader) :
    Nat → Parse (List (Case Span))
  | 0 => unexpected
  | fuel + 1 => do
    if ← check .rightBrace then
      return []
    else
      if ← connectiveAhead "case" then
        let _ ← advance
      let guard ← expression 0
      if !(← check .colon) then
        if !(← check .fatArrow) then
          unexpected
      let _ ← advance
      let result ← expression 0
      let _ ← accept .semicolon
      return .mk guard result :: (← cases expression fuel)

/- A switch over cases. -/
def switch (expression : ExpressionReader) : Parse (Node Span) := do
  let word ← advance
  let _ ← expect .leftBrace
  let inner ← cases expression (← get).fuel
  let _ ← advance
  return .switch inner (← spanFrom word.span)

/- Takes the optional connective between a guard and its consequence. -/
def skipThen : Parse Unit := do
  if ← check .fatArrow then
    let _ ← advance
  else if ← connectiveAhead "then" then
    let _ ← advance

/- The steps of an if-chain after the first `if`. -/
def branches
    (expression : ExpressionReader) :
    Nat → Parse (List (Branch Span))
  | 0 => unexpected
  | fuel + 1 => do
    let _ ← expect .leftParen
    let guard ← expression 0
    let _ ← expect .rightParen
    skipThen
    let consequence ← expression 0
    let first := Branch.test guard consequence
    if ← accept .elseWord then
      if ← accept .ifWord then
        return first :: (← branches expression fuel)
      else
        return [first, .otherwise (← expression 0)]
    else
      return [first]

/- An if-chain. -/
def ifChain (expression : ExpressionReader) : Parse (Node Span) := do
  let word ← advance
  let steps ← branches expression (← get).fuel
  return .cond steps (← spanFrom word.span)

------------------------------------------------------------
-- Operands
------------------------------------------------------------

/- An operator before its operand. -/
def unary
    (expression : ExpressionReader)
    (op : UnaryOp) :
    Parse (Node Span) := do
  let sign ← advance
  let operand ← expression unaryPower
  return .unary op operand (← spanFrom sign.span)

/- A constant of one token. -/
def constant (value : Value) : Parse (Node Span) := do
  let token ← advance
  return .literal value false token.span

/- A constant after an `@`. -/
def embedded (strict : Bool) : Parse (Node Span) := do
  let sign ← advance
  let value ← Embedded.read strict
  return .literal value true (← spanFrom sign.span)

/- An expression between parentheses. -/
def parenthesised (expression : ExpressionReader) : Parse (Node Span) := do
  let _ ← advance
  let inner ← expression 0
  let _ ← expect .rightParen
  return inner

/- A value that the script gives back. -/
def returned (expression : ExpressionReader) : Parse (Node Span) := do
  let word ← advance
  let value ← expression 0
  return .return value (← spanFrom word.span)

/- What stands before the first operator between operands. -/
def operand
    (strict : Bool)
    (expression : ExpressionReader) :
    Parse (Node Span) := do
  let token ← current
  match token.kind with
  | .bang => unary expression .not
  | .minus => unary expression .negate
  | .trueWord => constant (.bool true)
  | .falseWord => constant (.bool false)
  | .nullWord => constant .null
  | .number | .string => constant (token.literal.getD .null)
  | .identifier =>
    let _ ← advance
    return .variable token.text token.span
  | .leftParen => parenthesised expression
  | .leftBracket => array expression
  | .leftBrace => block expression
  | .at => embedded strict
  | .switchWord => switch expression
  | .ifWord => ifChain expression
  | .returnWord => returned expression
  | _ =>
    seek TokenKind.operandStarts
    unexpected

------------------------------------------------------------
-- Operators Between Operands
------------------------------------------------------------

/- The name and place of a node that can be called. -/
def callee? : Node Span → Option (Text × Span)
  | .variable name span => some (name, span)
  | _ => none

/- The kinds that can continue an expression after a node. -/
def continuations (node : Node Span) : List TokenKind :=
  TokenKind.betweenOperands ++ [.leftBracket] ++
    if (callee? node).isSome then [.leftParen] else []

/- An index after the node it is taken of. -/
def index
    (expression : ExpressionReader)
    (base : Node Span) :
    Parse (Node Span) := do
  let _ ← advance
  let position ← expression 0
  let _ ← expect .rightBracket
  return .index base position (← spanFrom base.span)

/-
  Extends an expression with the operators after it that
  bind at least as tightly as asked.
-/
def operators
    (expression : ExpressionReader)
    (power : Nat) :
    Nat → Chain → Parse (Node Span)
  | 0, _ => unexpected
  | fuel + 1, chain => do
    let left := chain.node
    seek (continuations left)
    let kind := (← current).kind
    match kind, callee? left with
    | .leftBracket, _ =>
      if postfixPower < power then
        return left
      else
        let node ← index expression left
        operators expression power fuel ⟨node, none⟩
    | .leftParen, some (name, span) =>
      if postfixPower < power then
        return left
      else
        let node ← call expression name span
        operators expression power fuel ⟨node, none⟩
    | _, _ =>
      match kind.power? with
      | none => return left
      | some (leftPower, rightPower) =>
        if leftPower < power then
          return left
        else
          let _ ← advance
          let right ← expression rightPower
          operators expression power fuel (chain.combine kind right)

end Production

------------------------------------------------------------
-- Expressions
------------------------------------------------------------

/- An expression that nests up to a given depth. -/
def expression
    (strict : Bool) :
    Nat → ExpressionReader
  | 0, _ => Parse.tooDeep .nestedTooDeeply
  | depth + 1, power => do
    let first ← Production.operand strict (expression strict depth)
    Production.operators (expression strict depth) power
      (← get).fuel ⟨first, none⟩

end ExperimentScript
