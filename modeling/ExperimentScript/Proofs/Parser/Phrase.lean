import ExperimentScript.Proofs.Parser.Reading

/-
  Phrases: tokens that are read as a given node.

  After the tokens of a phrase have been read, the loop over
  operators goes on with the node of the phrase, whatever
  comes next, as long as the next token is none that would
  have been read as part of it. Phrases are put together from
  smaller ones, one way for each production.

  Key definitions include:
    * `ExperimentScript.TokenKind.follows`
    * `ExperimentScript.Phrase`

  Main declarations:
    * `ExperimentScript.Phrase.reads`
    * `ExperimentScript.Phrase.of_operand`
    * `ExperimentScript.Phrase.binary`
    * `ExperimentScript.Phrase.extend`
-/

namespace ExperimentScript

------------------------------------------------------------
-- What May Follow
------------------------------------------------------------

namespace TokenKind

/-
  Whether a token of a kind may come after an expression of a
  level and is not read as a part of it.
-/
def follows
    (level : Nat)
    (kind : TokenKind) :
    Bool :=
  match kind with
  | .leftBracket | .leftParen => decide (8 ≤ level)
  | .elseWord => decide (0 < level)
  | .semicolon | .comma | .fatArrow => true
  | .rightParen | .rightBracket | .rightBrace => true
  | kind => kind.level?.any fun found => found ≤ level

/- More may follow what binds tighter. -/
theorem follows_mono
    {level tighter : Nat}
    {kind : TokenKind}
    (hLevel : level ≤ tighter)
    (hFollows : kind.follows level = true) :
    kind.follows tighter = true := by
  cases kind <;>
    simp_all [follows, level?] <;> omega

/- What follows a level is no operator that binds tighter. -/
theorem le_of_follows
    {level found : Nat}
    {kind : TokenKind}
    (hFollows : kind.follows level = true)
    (hFound : kind.level? = some found) :
    found ≤ level := by
  cases kind <;>
    simp_all [follows, level?]

/- An operator follows what binds at least as tightly. -/
theorem follows_of_level?
    {level found : Nat}
    {kind : TokenKind}
    (hFound : kind.level? = some found)
    (hLevel : found ≤ level) :
    kind.follows level = true := by
  cases kind <;>
    simp_all [follows, level?]

end TokenKind

/- What follows a level stops an expression of operators above it. -/
theorem Production.Stops.of_follows
    {level power : Nat}
    {kind : TokenKind}
    (hFollows : kind.follows level = true)
    (hLevel : level < 8)
    (hPower : ∀ found, found ≤ level → found ≤ 6 →
      1 ≤ found → 2 * found - 1 < power)
    (node : Node Span) :
    Stops power node kind := by
  refine ⟨?_, ?_, ?_⟩
  · rintro rfl
    simp only [TokenKind.follows, decide_eq_true_eq] at hFollows
    omega
  · rintro rfl
    simp only [TokenKind.follows, decide_eq_true_eq] at hFollows
    omega
  · intro found hFound
    have hLe := TokenKind.le_of_follows hFollows hFound
    have hRange := TokenKind.level?_le hFound
    exact hPower found hLe hRange.2 hRange.1

------------------------------------------------------------
-- Phrases
------------------------------------------------------------

/-
  Some tokens are read as a node whose operators bind at least
  as tightly as a level. The operator that the node is still
  open for is given as well.
-/
def Phrase
    (strict : Bool)
    (level : Nat)
    (open? : Option VariadicOp)
    (symbols : List Symbol)
    (node : Node Unit) : Prop :=
  ∀ (depth power : Nat) (next : Symbol) (rest : List Symbol)
    (done : Node Span → List Symbol → Prop),
    power ≤ 2 * level - 1 →
    next.kind.follows level = true →
    (∀ (tree : Node Span) (fuel : Nat),
      tree.unmark = node →
      rest.length < fuel →
      (Production.operators (expression strict depth) power fuel
        ⟨tree, open?⟩).At (next :: rest) done) →
    (expression strict (depth + 1) power).At
      (symbols ++ next :: rest) done

namespace Phrase

open Parse Production

variable {strict : Bool}
variable {level : Nat}
variable {open? : Option VariadicOp}
variable {symbols : List Symbol}
variable {node : Node Unit}

/- Where what follows stops it, a phrase is read as an expression. -/
theorem reads
    {power : Nat}
    {follow : TokenKind → Bool}
    (hPhrase : Phrase strict level open? symbols node)
    (hPower : power ≤ 2 * level - 1)
    (hFollow :
      ∀ kind, follow kind = true →
        kind.follows level = true ∧
          ∀ tree, Stops power tree kind)
    (depth : Nat) :
    (expression strict depth power).Reads symbols follow
      fun tree => tree.unmark = node := by
  intro next rest hNext
  rcases hFollow next.kind hNext with ⟨hFollows, hStops⟩
  cases depth with
  | zero => exact At.tooDeep
  | succ depth =>
      apply hPhrase depth power next rest _ hPower hFollows
      intro tree fuel hTree hFuel cursor hCursor
      obtain ⟨fuel, rfl⟩ : ∃ less, fuel = less + 1 :=
        Nat.exists_eq_succ_of_ne_zero (by omega)
      have hKind := Cursor.kind_current hCursor
      rw [Ends, operators_of_stops (hKind ▸ hStops tree)]
      exact ⟨hTree, hCursor⟩

/- A phrase is read as a body whatever its level. -/
theorem reads_body
    (hPhrase : Phrase strict level open? symbols node)
    (depth : Nat) :
    (expression strict depth 0).Reads symbols
      (TokenKind.follows 0) fun tree => tree.unmark = node := by
  refine hPhrase.reads (Nat.zero_le _) ?_ depth
  intro kind hKind
  refine
    ⟨TokenKind.follows_mono (Nat.zero_le _) hKind,
      Stops.of_follows hKind (by omega) ?_⟩
  intro found hZero
  omega

/- A phrase that binds tighter is read as the operand of a level. -/
theorem reads_operand
    {bound : Nat}
    (hPhrase : Phrase strict level open? symbols node)
    (hBound : bound < level)
    (hOperator : bound ≤ 6)
    (depth : Nat) :
    (expression strict depth (2 * bound)).Reads symbols
      (TokenKind.follows bound) fun tree => tree.unmark = node := by
  refine hPhrase.reads (by omega) ?_ depth
  intro kind hKind
  refine
    ⟨TokenKind.follows_mono (by omega) hKind,
      Stops.of_follows hKind (by omega) ?_⟩
  intro found
  omega

/- A phrase that binds as tightly is read after a sign before it. -/
theorem reads_unary
    (hPhrase : Phrase strict level open? symbols node)
    (hLevel : 7 ≤ level)
    (depth : Nat) :
    (expression strict depth unaryPower).Reads symbols
      (TokenKind.follows 7) fun tree => tree.unmark = node := by
  refine hPhrase.reads ?_ ?_ depth
  · unfold unaryPower
    omega
  · intro kind hKind
    refine
      ⟨TokenKind.follows_mono hLevel hKind,
        Stops.of_follows hKind (by omega) ?_⟩
    intro found
    unfold unaryPower
    omega

/- What is read as an operand is a phrase. -/
theorem of_operand
    (hOperand :
      ∀ depth,
        (operand strict (expression strict depth)).Reads symbols
          (TokenKind.follows level)
          fun tree => tree.unmark = node) :
    Phrase strict level none symbols node := by
  intro depth power next rest done _ hFollows hDone
  apply At.bind
  apply At.of_reads (hOperand depth) hFollows
  intro tree hTree
  apply At.bind
  apply At.get
  intro cursor hCursor
  apply hDone tree cursor.fuel hTree
  rw [← Cursor.length_symbols, hCursor]
  exact Nat.lt_succ_self _

end Phrase

------------------------------------------------------------
-- Operands
------------------------------------------------------------

namespace Production

open Parse

/- The production that begins with a kind of token, if the kind alone tells it. -/
def production?
    (strict : Bool)
    (expression : ExpressionReader) :
    TokenKind → Option (Parse (Node Span))
  | .bang => some (unary expression .not)
  | .minus => some (unary expression .negate)
  | .trueWord => some (constant (.bool true))
  | .falseWord => some (constant (.bool false))
  | .nullWord => some (constant .null)
  | .leftParen => some (parenthesised expression)
  | .leftBracket => some (array expression)
  | .leftBrace => some (block expression)
  | .at => some (embedded strict)
  | .switchWord => some (switch expression)
  | .ifWord => some (ifChain expression)
  | .returnWord => some (returned expression)
  | _ => none

/- An operand is what the production of its first token reads. -/
theorem at_operand
    {strict : Bool}
    {expression : ExpressionReader}
    {step : Parse (Node Span)}
    {first : Symbol}
    {more : List Symbol}
    {done : Node Span → List Symbol → Prop}
    (hProduction :
      production? strict expression first.kind = some step)
    (hStep : step.At (first :: more) done) :
    (operand strict expression).At (first :: more) done := by
  intro cursor hCursor
  have hSame :
      operand strict expression cursor = step cursor := by
    rw [← Cursor.kind_current hCursor] at hProduction
    rw [operand, current_bind_apply]
    generalize cursor.current.kind = kind at hProduction ⊢
    cases kind <;> cases hProduction <;> rfl
  rw [Ends, hSame]
  exact hStep cursor hCursor

end Production

namespace Phrase

open Parse Production

variable {strict : Bool}
variable {level : Nat}
variable {open? : Option VariadicOp}
variable {symbols : List Symbol}
variable {node : Node Unit}

/- What the production of its first token reads is a phrase. -/
theorem of_production
    {first : Symbol}
    {more : List Symbol}
    {production : ExpressionReader → Parse (Node Span)}
    (hProduction :
      ∀ reader,
        production? strict reader first.kind =
          some (production reader))
    (hReads :
      ∀ depth,
        (production (expression strict depth)).Reads (first :: more)
          (TokenKind.follows level)
          fun tree => tree.unmark = node) :
    Phrase strict level none (first :: more) node := by
  apply of_operand
  intro depth next rest hNext
  exact at_operand (hProduction _) (hReads depth next rest hNext)

/- A reserved word that is an operand is read as its constant. -/
theorem word
    {symbol : Symbol}
    {value : Value}
    (hProduction :
      ∀ reader,
        production? strict reader symbol.kind =
          some (constant value)) :
    Phrase strict 9 none [symbol] (.literal value false ()) := by
  apply of_production hProduction
  intro depth next rest _
  apply At.bind
  apply At.advance (List.cons_ne_nil _ _)
  intro token _
  exact At.pure ⟨rfl, rfl⟩

/- A number or a string is read as its constant. -/
theorem literal
    {symbol : Symbol}
    {value : Value}
    (hKind : symbol.kind = .number ∨ symbol.kind = .string)
    (hValue : symbol.literal = some value) :
    Phrase strict 9 none [symbol] (.literal value false ()) := by
  apply of_operand
  intro depth next rest _
  apply At.bind
  apply At.current
  intro token hToken
  have hFirst : token.kind = symbol.kind :=
    congrArg Symbol.kind hToken
  have hLiteral : token.literal = some value :=
    (congrArg Symbol.literal hToken).trans hValue
  rcases hKind with hNumber | hString
  · simp only [hFirst, hNumber, hLiteral]
    apply At.bind
    apply At.advance (List.cons_ne_nil _ _)
    intro taken _
    exact At.pure ⟨rfl, rfl⟩
  · simp only [hFirst, hString, hLiteral]
    apply At.bind
    apply At.advance (List.cons_ne_nil _ _)
    intro taken _
    exact At.pure ⟨rfl, rfl⟩

/- A name is read as a variable. -/
theorem «variable» (name : Text) :
    Phrase strict 9 none [.name name] (.variable name ()) := by
  apply of_operand
  intro depth next rest _
  apply At.bind
  apply At.current
  intro token hToken
  have hFirst : token.kind = .identifier :=
    congrArg Symbol.kind hToken
  have hText : token.text = name := congrArg Symbol.text hToken
  simp only [hFirst]
  apply At.bind
  apply At.advance (List.cons_ne_nil _ _)
  intro taken _
  refine At.pure ⟨?_, rfl⟩
  rw [Node.unmark, hText]

/- Parentheses make an operand of a phrase. -/
theorem parenthesised
    (hPhrase : Phrase strict level open? symbols node) :
    Phrase strict 9 none
      (.fixed .leftParen :: (symbols ++ [.fixed .rightParen]))
      node := by
  refine of_production (fun _ => rfl) ?_
  intro depth next rest _
  simp only [List.cons_append, List.append_assoc,
    List.nil_append]
  apply At.bind
  apply At.advance (by simp)
  intro opening _
  apply At.bind
  apply At.of_reads (hPhrase.reads_body depth) rfl
  intro tree hTree
  apply At.bind
  apply At.expect (Symbol.kind_fixed _) (List.cons_ne_nil _ _)
  intro closing _
  exact At.pure ⟨hTree, rfl⟩

/- An operator before a phrase that binds as tightly. -/
theorem unary
    {kind : TokenKind}
    {op : UnaryOp}
    (hProduction :
      ∀ reader,
        production? strict reader kind =
          some (Production.unary reader op))
    (hLevel : 7 ≤ level)
    (hPhrase : Phrase strict level open? symbols node) :
    Phrase strict 7 none (.fixed kind :: symbols)
      (.unary op node ()) := by
  apply of_production hProduction
  intro depth next rest hNext
  apply At.bind
  apply At.advance (by simp)
  intro sign _
  apply At.bind
  apply At.of_reads (hPhrase.reads_unary hLevel depth) hNext
  intro tree hTree
  apply At.spanned
  intro span
  exact ⟨by simp [Node.unmark, hTree], rfl⟩

/- A value that the script gives back. -/
theorem returned
    (hPhrase : Phrase strict level open? symbols node) :
    Phrase strict 0 none (.fixed .returnWord :: symbols)
      (.return node ()) := by
  refine of_production (fun _ => rfl) ?_
  intro depth next rest hNext
  apply At.bind
  apply At.advance (by simp)
  intro word _
  apply At.bind
  apply At.of_reads (hPhrase.reads_body depth) hNext
  intro tree hTree
  apply At.spanned
  intro span
  exact ⟨by simp [Node.unmark, hTree], rfl⟩

------------------------------------------------------------
-- Operators Between Operands
------------------------------------------------------------

/- The loop reads an operator with the operand after it. -/
theorem at_operators_of_level
    {reader : ExpressionReader}
    {power found fuel : Nat}
    {chain : Chain}
    {sign next : Symbol}
    {rest : List Symbol}
    {right : Node Unit}
    {done : Node Span → List Symbol → Prop}
    (hLevel : sign.kind.level? = some found)
    (hPower : power ≤ 2 * found - 1)
    (hRight :
      (reader (2 * found)).Reads symbols
        (TokenKind.follows found) fun tree => tree.unmark = right)
    (hNext : next.kind.follows found = true)
    (hFuel : (symbols ++ next :: rest).length < fuel)
    (hDone :
      ∀ (tree : Node Span) (less : Nat),
        tree.unmark = right →
        rest.length < less →
        (operators reader power less
          (chain.combine sign.kind tree)).At (next :: rest) done) :
    (operators reader power fuel chain).At
      (sign :: (symbols ++ next :: rest)) done := by
  obtain ⟨fuel, rfl⟩ : ∃ less, fuel = less + 1 :=
    Nat.exists_eq_succ_of_ne_zero (by omega)
  have hStep :
      (do
        let right ← reader (2 * found)
        operators reader power fuel
          (chain.combine sign.kind right)).At
        (symbols ++ next :: rest) done := by
    apply At.bind
    apply At.of_reads hRight hNext
    intro tree hTree
    apply hDone tree fuel hTree
    simp only [List.length_append, List.length_cons] at hFuel
    omega
  intro cursor hCursor
  have hKind := Cursor.kind_current hCursor
  rw [← hKind] at hLevel hStep
  rw [Ends, operators_of_level hLevel hPower]
  exact hStep cursor.next (Cursor.symbols_next hCursor (by simp))

/- A phrase goes on with an operator and the operand after it. -/
theorem join
    {sign : Symbol}
    {found tighter : Nat}
    {joined? rightOpen? : Option VariadicOp}
    {others : List Symbol}
    {right joined : Node Unit}
    (hSign : sign.kind.level? = some found)
    (hLeft : Phrase strict level open? symbols node)
    (hLevel : found ≤ level)
    (hRight : Phrase strict tighter rightOpen? others right)
    (hTighter : found < tighter)
    (hJoined :
      ∀ left tree : Node Span,
        left.unmark = node →
        tree.unmark = right →
        ∃ result : Node Span,
          result.unmark = joined ∧
            Chain.combine ⟨left, open?⟩ sign.kind tree =
              ⟨result, joined?⟩) :
    Phrase strict found joined? (symbols ++ sign :: others)
      joined := by
  intro depth power next rest done hPower hNext hDone
  have hRange := TokenKind.level?_le hSign
  rw [List.append_assoc, List.cons_append]
  apply hLeft depth power sign (others ++ next :: rest) done
  · omega
  · exact TokenKind.follows_of_level? hSign hLevel
  · intro left fuel hLeftTree hFuel
    apply at_operators_of_level hSign hPower
      (hRight.reads_operand hTighter hRange.2 depth) hNext hFuel
    intro tree less hTree hLess
    rcases hJoined left tree hLeftTree hTree with
      ⟨result, hResult, hCombine⟩
    rw [hCombine]
    exact hDone result less hResult hLess

/- An operator between two operands. -/
theorem binary
    {kind : TokenKind}
    {op : BinaryOp}
    {found tighter : Nat}
    {rightOpen? : Option VariadicOp}
    {others : List Symbol}
    {right : Node Unit}
    (hOp : kind.binary? = some op)
    (hSign : kind.level? = some found)
    (hLeft : Phrase strict level open? symbols node)
    (hLevel : found ≤ level)
    (hRight : Phrase strict tighter rightOpen? others right)
    (hTighter : found < tighter) :
    Phrase strict found none (symbols ++ .fixed kind :: others)
      (.binary op node right ()) := by
  refine join hSign hLeft hLevel hRight hTighter ?_
  intro left tree hLeftTree hTree
  refine
    ⟨.binary op left tree (left.span.through tree.span), ?_, ?_⟩
  · rw [Node.unmark, hLeftTree, hTree]
  · have hNone : kind.variadic? = none := by
      cases kind <;> cases hOp <;> rfl
    simp only [Chain.combine, Symbol.kind_fixed, hNone, hOp]

/- Unequal is the negation of equal. -/
theorem notEqual
    {tighter : Nat}
    {rightOpen? : Option VariadicOp}
    {others : List Symbol}
    {right : Node Unit}
    (hLeft : Phrase strict level open? symbols node)
    (hLevel : 3 ≤ level)
    (hRight : Phrase strict tighter rightOpen? others right)
    (hTighter : 3 < tighter) :
    Phrase strict 3 none (symbols ++ .fixed .notEqual :: others)
      (.unary .not (.binary .equals node right ()) ()) := by
  refine join rfl hLeft hLevel hRight hTighter ?_
  intro left tree hLeftTree hTree
  refine ⟨.unary .not (.binary .equals left tree _) _, ?_, rfl⟩
  rw [Node.unmark, Node.unmark, hLeftTree, hTree]

end Phrase

------------------------------------------------------------
-- Operators With Any Number Of Operands
------------------------------------------------------------

namespace Node

variable {α : Type}

theorem unmarkAll_eq_map (nodes : List (Node α)) :
    unmarkAll nodes = nodes.map unmark := by
  induction nodes with
  | nil => rfl
  | cons node nodes ih => rw [unmarkAll, ih, List.map_cons]

/- What is an operator without its marks is one with them. -/
theorem eq_variadic_of_unmark
    {node : Node α}
    {op : VariadicOp}
    {operands : List (Node Unit)}
    (hNode : node.unmark = .variadic op operands ()) :
    ∃ marked mark,
      node = .variadic op marked mark ∧
        marked.map unmark = operands := by
  cases node <;> simp only [unmark, reduceCtorEq] at hNode
  rename_i found marked mark
  rcases hNode with ⟨rfl, rfl⟩
  exact ⟨marked, mark, rfl, (unmarkAll_eq_map marked).symm⟩

/- What is a variable without its mark is one with it. -/
theorem eq_variable_of_unmark
    {node : Node α}
    {name : Text}
    (hNode : node.unmark = .variable name ()) :
    ∃ mark, node = .variable name mark := by
  cases node <;> simp only [unmark, reduceCtorEq] at hNode
  rename_i found mark
  rcases hNode with ⟨rfl⟩
  exact ⟨mark, rfl⟩

end Node

namespace Phrase

open Parse Production

variable {strict : Bool}
variable {level : Nat}
variable {open? : Option VariadicOp}
variable {symbols others : List Symbol}
variable {node right : Node Unit}

/- The operand that a sign adds: a difference adds a negated one. -/
def added
    (kind : TokenKind)
    (right : Node Unit) :
    Node Unit :=
  if kind = .minus then .unary .negate right () else right

theorem unmark_added
    {tree : Node Span}
    (kind : TokenKind)
    (hTree : tree.unmark = right) :
    Node.unmark
        (if kind = .minus then .unary .negate tree tree.span
          else tree) =
      added kind right := by
  unfold added
  split
  · rw [Node.unmark, hTree]
  · exact hTree

/- The first sign of an operator makes a node of two operands. -/
theorem start
    {kind : TokenKind}
    {op : VariadicOp}
    {tighter : Nat}
    {rightOpen? : Option VariadicOp}
    (hOp : kind.variadic? = some op)
    (hLeft : Phrase strict level open? symbols node)
    (hLevel : op.level ≤ level)
    (hOpen : open? ≠ some op)
    (hRight : Phrase strict tighter rightOpen? others right)
    (hTighter : op.level < tighter) :
    Phrase strict op.level (some op)
      (symbols ++ .fixed kind :: others)
      (.variadic op [node, added kind right] ()) := by
  have hSign := TokenKind.level?_of_variadic? hOp
  refine join hSign hLeft hLevel hRight hTighter ?_
  intro left tree hLeftTree hTree
  have hCombine :
      Chain.combine ⟨left, open?⟩ kind tree =
        ⟨.variadic op
          [left,
            if kind = .minus then .unary .negate tree tree.span
            else tree]
          (left.span.through tree.span), some op⟩ := by
    simp only [Chain.combine, hOp]
    exact Chain.extend_of_not_open hOpen _ _
  refine ⟨_, ?_, hCombine⟩
  rw [Node.unmark, Node.unmarkAll_eq_map, List.map_cons,
    List.map_singleton, hLeftTree, unmark_added kind hTree]

/- A further sign of the operator adds an operand. -/
theorem extend
    {kind : TokenKind}
    {op : VariadicOp}
    {operands : List (Node Unit)}
    {tighter : Nat}
    {rightOpen? : Option VariadicOp}
    (hOp : kind.variadic? = some op)
    (hLeft :
      Phrase strict op.level (some op) symbols
        (.variadic op operands ()))
    (hRight : Phrase strict tighter rightOpen? others right)
    (hTighter : op.level < tighter) :
    Phrase strict op.level (some op)
      (symbols ++ .fixed kind :: others)
      (.variadic op (operands ++ [added kind right]) ()) := by
  have hSign := TokenKind.level?_of_variadic? hOp
  refine join hSign hLeft (Nat.le_refl _) hRight hTighter ?_
  intro left tree hLeftTree hTree
  rcases Node.eq_variadic_of_unmark hLeftTree with
    ⟨marked, mark, rfl, hMarked⟩
  have hCombine :
      Chain.combine ⟨.variadic op marked mark, some op⟩ kind
          tree =
        ⟨.variadic op
          (marked ++
            [if kind = .minus then .unary .negate tree tree.span
              else tree])
          ((Node.variadic op marked mark).span.through tree.span),
          some op⟩ := by
    simp only [Chain.combine, hOp, Chain.extend, and_self,
      if_true]
  refine ⟨_, ?_, hCombine⟩
  rw [Node.unmark, Node.unmarkAll_eq_map, List.map_append,
    List.map_singleton, hMarked, unmark_added kind hTree]

------------------------------------------------------------
-- Indices And Calls
------------------------------------------------------------

/- An index after what binds as tightly. -/
theorem index
    {inner : Nat}
    {innerOpen? : Option VariadicOp}
    {position : Node Unit}
    (hBase : Phrase strict level open? symbols node)
    (hLevel : 8 ≤ level)
    (hPosition : Phrase strict inner innerOpen? others position) :
    Phrase strict 8 none
      (symbols ++ .fixed .leftBracket ::
        (others ++ [.fixed .rightBracket]))
      (.index node position ()) := by
  intro depth power next rest done hPower _ hDone
  simp only [List.cons_append, List.append_assoc,
    List.nil_append]
  apply hBase depth power (.fixed .leftBracket) _ done
  · omega
  · simpa [TokenKind.follows] using hLevel
  · intro base fuel hBaseTree hFuel
    obtain ⟨fuel, rfl⟩ : ∃ less, fuel = less + 1 :=
      Nat.exists_eq_succ_of_ne_zero (by omega)
    intro cursor hCursor
    have hKind := Cursor.kind_current hCursor
    rw [Ends, operators_of_index hKind hPower]
    have hIndex :
        (do
          let node ← Production.index (expression strict depth) base
          operators (expression strict depth) power fuel
            ⟨node, none⟩).At
          (Symbol.fixed .leftBracket ::
            (others ++ Symbol.fixed .rightBracket :: next :: rest))
          done := by
      apply At.bind
      apply At.bind
      apply At.advance (by simp)
      intro opening _
      apply At.bind
      apply At.of_reads (hPosition.reads_body depth) rfl
      intro tree hTree
      apply At.bind
      apply At.expect (Symbol.kind_fixed _) (List.cons_ne_nil _ _)
      intro closing _
      apply At.spanned
      intro span
      apply hDone
      · rw [Node.unmark, hBaseTree, hTree]
      · simp only [List.length_append, List.length_cons] at hFuel
        omega
    exact hIndex _ hCursor

/- A name goes on with what its arguments are read as. -/
theorem call
    {name : Text}
    (hCall :
      ∀ depth start,
        (Production.call (expression strict depth) name
          start).Reads symbols (fun _ => true)
          fun tree => tree.unmark = node)
    (hFirst : ∃ more, symbols = .fixed .leftParen :: more) :
    Phrase strict 8 none (.name name :: symbols) node := by
  rcases hFirst with ⟨more, rfl⟩
  intro depth power next rest done hPower _ hDone
  apply «variable» name depth power (.fixed .leftParen) _ done
  · omega
  · rfl
  · intro tree fuel hTree hFuel
    rcases Node.eq_variable_of_unmark hTree with ⟨mark, rfl⟩
    obtain ⟨fuel, rfl⟩ : ∃ less, fuel = less + 1 :=
      Nat.exists_eq_succ_of_ne_zero (by omega)
    intro cursor hCursor
    have hKind := Cursor.kind_current hCursor
    rw [Ends, operators_of_call hKind hPower rfl]
    have hArguments :
        (do
          let node ←
            Production.call (expression strict depth) name mark
          operators (expression strict depth) power fuel
            ⟨node, none⟩).At
          (Symbol.fixed .leftParen :: more ++ next :: rest) done := by
      apply At.bind
      apply At.of_reads (hCall depth mark) rfl
      intro result hResult
      apply hDone result fuel hResult
      simp only [List.append_eq, List.length_append,
        List.length_cons] at hFuel
      omega
    exact hArguments _ hCursor

end Phrase

end ExperimentScript
