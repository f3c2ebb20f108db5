import ExperimentScript.Proofs.Format.Constant

/-
  Texts that are read as a given node.

  A text is written for a node when it spells tokens that are
  a phrase of the node. What is written for the parts of a
  node is put together to what is written for the node, by
  one rule for each kind of node, with the same parentheses,
  blanks and signs as the notation has.

  Key definitions include:
    * `ExperimentScript.Opens`
    * `ExperimentScript.Written`

  Main declarations:
    * `ExperimentScript.Written.parens`
    * `ExperimentScript.Written.binary`
    * `ExperimentScript.Written.grows_further`
    * `ExperimentScript.Written.callNamed`
-/

namespace ExperimentScript

------------------------------------------------------------
-- How Texts Open
------------------------------------------------------------

/-
  How the text of an expression opens: like an expression, a
  name at its front ends where the text or a word ends, and
  an `if` at its front belongs to the whole.
-/
structure Opens
    (level : Nat)
    (text : Text)
    (symbols : List Symbol) : Prop where
  starts : Starts symbols
  alone :
    ∀ first, symbols = [first] →
      first.kind = .identifier → text = first.text
  word :
    ∀ first second more, symbols = first :: second :: more →
      first.kind = .identifier →
      ∃ c tail, text = first.text ++ c :: tail ∧ c.isWord = false
  chain :
    ∀ first more, symbols = first :: more →
      first.kind = .ifWord → level = 0

namespace Opens

variable {level : Nat}
variable {text : Text}
variable {symbols : List Symbol}

/- A text whose first token is neither a name nor begins a chain. -/
theorem of_first
    {first : Symbol}
    {more : List Symbol}
    (hFirst : first.kind.startsOperand = true)
    (hName : first.kind ≠ .identifier)
    (hChain : first.kind = .ifWord → level = 0) :
    Opens level text (first :: more) := by
  constructor
  · constructor
    · exact ⟨first, more, rfl, hFirst⟩
    · rintro _ _ _ hSymbols hKind
      cases hSymbols
      exact absurd hKind hName
  · rintro _ hSymbols hKind
    cases hSymbols
    exact absurd hKind hName
  · rintro _ _ _ hSymbols hKind
    cases hSymbols
    exact absurd hKind hName
  · rintro _ _ hSymbols hKind
    cases hSymbols
    exact hChain hKind

/- A name by itself. -/
theorem name (name : Text) : Opens level name [.name name] := by
  constructor
  · constructor
    · exact ⟨.name name, [], rfl, rfl⟩
    · rintro _ _ _ hSymbols
      cases hSymbols
  · rintro _ hSymbols _
    cases hSymbols
    rfl
  · rintro _ _ _ hSymbols
    cases hSymbols
  · rintro _ _ hSymbols hKind
    cases hSymbols
    cases hKind

/- More text after a word's end opens in the same way. -/
theorem append
    {outer : Nat}
    {c : CodePoint}
    {tail : Text}
    {next : Symbol}
    {rest : List Symbol}
    (hOpens : Opens level text symbols)
    (hLevel : 0 < level)
    (hWord : c.isWord = false)
    (hNext : next.kind.afterName = false) :
    Opens outer (text ++ c :: tail) (symbols ++ next :: rest) := by
  rcases hOpens.starts.operand with ⟨first, more, rfl, hFirst⟩
  constructor
  · constructor
    · exact ⟨first, more ++ next :: rest, rfl, hFirst⟩
    · rintro _ second others hSymbols hKind
      cases more with
      | nil =>
          cases hSymbols
          exact hNext
      | cons found more =>
          cases hSymbols
          exact hOpens.starts.unassigned _ _ _ rfl hKind
  · rintro other hSymbols _
    cases more <;> cases hSymbols
  · rintro _ second others hSymbols hKind
    cases more with
    | nil =>
        cases hSymbols
        rw [hOpens.alone _ rfl hKind]
        exact ⟨c, tail, rfl, hWord⟩
    | cons found more =>
        cases hSymbols
        rcases hOpens.word _ _ _ rfl hKind with
          ⟨d, others, hText, hEnd⟩
        exact ⟨d, others ++ c :: tail, by simp [hText], hEnd⟩
  · rintro _ others hSymbols hKind
    cases hSymbols
    have hZero := hOpens.chain _ _ rfl hKind
    omega

/- A text that does not start with a word is not read with it. -/
theorem unconnected
    {word : Text}
    (hOpens : Opens level text symbols)
    (hWord : Format.startsWithWord word text = false) :
    Unconnected word symbols := by
  rintro first second more rfl hKind rfl
  rcases hOpens.word _ _ _ rfl hKind with ⟨c, tail, rfl, hEnd⟩
  have hPrefix :
      first.text.isPrefixOf (first.text ++ c :: tail) = true :=
    List.isPrefixOf_iff_prefix.mpr (List.prefix_append _ _)
  simp [Format.startsWithWord, hPrefix, Text.atWordEnd, hEnd]
    at hWord

end Opens

------------------------------------------------------------
-- Written Nodes
------------------------------------------------------------

/- A text between two signs of its own. -/
theorem Spells.enclosed
    {opening closing : TokenKind}
    {text : Text}
    {symbols : List Symbol}
    (hOpening : opening ∈ Scans.marks)
    (hStarts : opening.endsOperand = false)
    (hClosing : closing ∈ Scans.marks)
    (hEnds : closing.endsOperand = true)
    (hSpells : Spells text symbols) :
    Spells (opening.written ++ text ++ closing.written)
      (.fixed opening :: (symbols ++ [.fixed closing])) := by
  rw [List.append_assoc]
  exact
    (hSpells.append_mark hClosing hEnds).mark_cons hOpening
      hStarts

/- A text before one that does not continue it. -/
theorem Spells.append
    {c : CodePoint}
    {text more : Text}
    {symbols others : List Symbol}
    (hText : Spells text symbols)
    (hMore : Spells (c :: more) others)
    (hApart : c.continuesName = false ∧ c ≠ '.')
    (hSigned : c ≠ '-') :
    Spells (text ++ c :: more) (symbols ++ others) := by
  intro ended rest hEnded hRest
  have hNumber : Format.startsSigned (c :: more) = false := by
    unfold Format.startsSigned
    split
    · rename_i hParts
      cases hParts
      exact absurd rfl hSigned
    · rfl
  have hEnds : Text.Apart (c :: (more ++ rest)) := by
    intro d hMem
    cases hMem
    exact hApart
  have hFirst :=
    hText ended (c :: (more ++ rest))
      (fun hTrue => startsSigned_of_append (hEnded hTrue)) hEnds
  have hSecond := hMore true rest (fun _ => hNumber) hRest
  rw [List.append_assoc]
  exact hFirst.trans hSecond

/- A text spells tokens that are a phrase of a node. -/
def Written
    (strict : Bool)
    (level : Nat)
    (open? : Option VariadicOp)
    (text : Text)
    (node : Node Unit) : Prop :=
  ∃ symbols,
    Spells text symbols ∧
      Opens level text symbols ∧
      Phrase strict level open? symbols node

namespace Written

variable {strict : Bool}
variable {level inner : Nat}
variable {open? innerOpen? : Option VariadicOp}
variable {text more : Text}
variable {node other : Node Unit}

/- A text between parentheses is written for an operand. -/
theorem parenthesised
    (hWritten : Written strict level open? text node) :
    Written strict 9 none ("(" ++ text ++ ")") node := by
  rcases hWritten with ⟨symbols, hSpells, hOpens, hPhrase⟩
  have hWhole :
      Spells
        (TokenKind.written .leftParen ++ text ++
          TokenKind.written .rightParen)
        (.fixed .leftParen :: (symbols ++ [.fixed .rightParen])) :=
    hSpells.enclosed (by decide) rfl (by decide) rfl
  exact
    ⟨_, hWhole, .of_first rfl (by simp) (by simp),
      hPhrase.parenthesised⟩

/- Parentheses where they are needed give what is asked for. -/
theorem parens
    {needed : Bool}
    (good : Nat → Option VariadicOp → Prop)
    (hWritten : Written strict level open? text node)
    (hClosed : good 9 none)
    (hBare : needed = false → good level open?) :
    ∃ found found?,
      good found found? ∧
        Written strict found found? (Format.parens needed text)
          node := by
  cases needed with
  | true => exact ⟨9, none, hClosed, hWritten.parenthesised⟩
  | false => exact ⟨level, open?, hBare rfl, hWritten⟩

------------------------------------------------------------
-- Operands
------------------------------------------------------------

theorem «variable»
    {name : Text}
    (hName : Format.isName name = true) :
    Written strict 9 none name (.variable name ()) :=
  ⟨_, spells_name hName, .name name, .variable name⟩

/- A constant without an `@`. -/
theorem constant
    {value : Value}
    (hBounded : value.isBounded = true)
    (hText : Format.constant value = .ok text) :
    Written strict 9 none text (.literal value false ()) := by
  by_cases hContent : ∃ content, value = .text content
  · rcases hContent with ⟨content, rfl⟩
    cases hText
    exact
      ⟨_, spells_quote content,
        .of_first (by rfl) (by simp) (by simp),
        .of_tokenValue? (by simp) rfl⟩
  · have hOther : ∀ content, value ≠ .text content :=
      fun content hSame => hContent ⟨content, hSame⟩
    rcases
        Format.exists_symbol_of_constant hOther hBounded hText with
      ⟨symbol, hSpells, hKind, hValue⟩
    have hOperand :
        symbol.kind.startsOperand = true ∧
          symbol.kind ≠ .identifier ∧ symbol.kind ≠ .ifWord := by
      revert hKind
      generalize symbol.kind = kind
      cases kind <;> decide
    exact
      ⟨_, hSpells,
        .of_first hOperand.1 hOperand.2.1
          fun hChain => absurd hChain hOperand.2.2,
        .of_tokenValue? hOperand.2.1 (hValue false)⟩

/- A constant after an `@`. -/
theorem embedded
    {value : Value}
    {levels : Nat}
    (hBounded : value.isBounded = true)
    (hText : Format.embedded strict levels value = .ok text) :
    Written strict 9 none ("@" ++ text)
      (.literal value true ()) := by
  rcases
      Format.embeddedText_of_embedded value text hBounded hText with
    ⟨symbols, hSpells, hRead, _⟩
  have hWhole :
      Spells (TokenKind.written .at ++ text)
        (.fixed .at :: symbols) :=
    hSpells.mark_cons (by decide) rfl
  exact
    ⟨_, hWhole, .of_first rfl (by simp) (by simp),
      .embedded (hRead Embedded.maxDepth)⟩

/- A negation after its sign. -/
theorem not
    (hWritten : Written strict level open? text node)
    (hLevel : 7 ≤ level) :
    Written strict 7 none ("!" ++ text)
      (.unary .not node ()) := by
  rcases hWritten with ⟨symbols, hSpells, hOpens, hPhrase⟩
  have hWhole : Spells ("!" ++ text) (.fixed .bang :: symbols) := by
    refine .of_scans fun ended rest hRest => ?_
    rcases hOpens.starts.operand with ⟨first, tail, rfl, hFirst⟩
    have hAfter :=
      hSpells false rest (fun hTrue => nomatch hTrue) hRest
    have hHead :
        ∀ c ∈ (text ++ rest).head?, c ≠ '=' := by
      cases text with
      | nil => exact absurd rfl hSpells.ne_nil
      | cons c tail =>
          intro d hMem
          exact (hSpells.head_ne hFirst d hMem).1
    exact (Scans.bang hHead).trans hAfter
  exact
    ⟨_, hWhole, .of_first rfl (by simp) (by simp),
      hPhrase.unary (fun _ => rfl) hLevel⟩

/- A negative after its sign, which is kept from joining a number. -/
theorem negated
    (hWritten : Written strict level open? text node)
    (hLevel : 7 ≤ level) :
    Written strict 7 none (Format.negated text)
      (.unary .negate node ()) := by
  rcases hWritten with ⟨symbols, hSpells, hOpens, hPhrase⟩
  have hWhole :
      Spells (Format.negated text) (.fixed .minus :: symbols) := by
    refine .of_scans fun ended rest hRest => ?_
    have hAfter :=
      hSpells false rest (fun hTrue => nomatch hTrue) hRest
    rcases hOpens.starts.operand with ⟨first, tail, rfl, hFirst⟩
    cases text with
    | nil => exact absurd rfl hSpells.ne_nil
    | cons c tail =>
        unfold Format.negated
        by_cases hNumber : (c.isDigit || c == '.') = true
        · simp only [hNumber, if_true]
          have hBlank :
              Lexeme.unsignedAhead
                (.char ' ' :: (c :: tail ++ rest)) = false := rfl
          exact
            (Scans.minus hBlank).trans (Scans.space.trans hAfter)
        · simp only [hNumber, if_false, Bool.false_eq_true]
          have hApart :
              Lexeme.unsignedAhead (c :: tail ++ rest) =
                false := by
            simp only [Bool.or_eq_true, not_or, Bool.not_eq_true]
              at hNumber
            simp [Lexeme.unsignedAhead, hNumber]
          exact (Scans.minus hApart).trans hAfter
  exact
    ⟨_, hWhole, .of_first rfl (by simp) (by simp),
      hPhrase.unary (fun _ => rfl) hLevel⟩

/- A value that the script gives back. -/
theorem returned
    (hWritten : Written strict level open? text node) :
    Written strict 0 none ("return " ++ text)
      (.return node ()) := by
  rcases hWritten with ⟨symbols, hSpells, hOpens, hPhrase⟩
  have hWhole :
      Spells (TokenKind.written .returnWord ++ .char ' ' :: text)
        (.fixed .returnWord :: symbols) :=
    hSpells.reserved_space (by decide) rfl
  exact
    ⟨_, hWhole, .of_first rfl (by simp) (by simp),
      hPhrase.returned⟩

/- An index after what binds as tightly. -/
theorem index
    (hWritten : Written strict level open? text node)
    (hLevel : 8 ≤ level)
    (hIndex : Written strict inner innerOpen? more other) :
    Written strict 8 none (text ++ "[" ++ more ++ "]")
      (.index node other ()) := by
  rcases hWritten with ⟨symbols, hSpells, hOpens, hPhrase⟩
  rcases hIndex with ⟨others, hMore, _, hPosition⟩
  have hClosed :
      Spells (more ++ TokenKind.written .rightBracket)
        (others ++ [.fixed .rightBracket]) :=
    hMore.append_mark (by decide) rfl
  have hWhole :
      Spells
        (text ++
          (TokenKind.written .leftBracket ++
            (more ++ TokenKind.written .rightBracket)))
        (symbols ++ .fixed .leftBracket ::
          (others ++ [.fixed .rightBracket])) :=
    hSpells.mark_between (by decide) rfl hClosed
  simp only [List.append_assoc]
  exact
    ⟨_, hWhole, hOpens.append (by omega) (by decide +kernel) rfl,
      hPhrase.index hLevel hPosition⟩

------------------------------------------------------------
-- Operators Between Operands
------------------------------------------------------------

/- A sign between blanks between two operands. -/
theorem exists_spaced
    {kind : TokenKind}
    {symbols others : List Symbol}
    (outer : Nat)
    (hKind : kind ∈ Scans.spacedSigns)
    (hName : kind.afterName = false)
    (hSpells : Spells text symbols)
    (hOpens : Opens level text symbols)
    (hLevel : 0 < level)
    (hMore : Spells more others) :
    Spells (text ++ " " ++ kind.written ++ " " ++ more)
        (symbols ++ .fixed kind :: others) ∧
      Opens outer (text ++ " " ++ kind.written ++ " " ++ more)
        (symbols ++ .fixed kind :: others) := by
  have hText :
      text ++ " " ++ kind.written ++ " " ++ more =
        text ++ .char ' ' ::
          (kind.written ++ .char ' ' :: more) := by
    simp [Text.ofString]
  rw [hText]
  exact
    ⟨hSpells.spaced hKind hMore,
      hOpens.append hLevel (by decide +kernel) hName⟩

/- The sign of an operator between two operands. -/
def binaryKind : BinaryOp → TokenKind
  | .modulo => .percent
  | .divide => .slash
  | .greater => .greater
  | .less => .less
  | .equals => .equal
  | .lessEqual => .lessEqual
  | .greaterEqual => .greaterEqual

/- An operator between two operands. -/
theorem binary
    (op : BinaryOp)
    (hLeft : Written strict level open? text node)
    (hLevel : Format.binaryLevel op ≤ level)
    (hRight : Written strict inner innerOpen? more other)
    (hInner : Format.binaryLevel op < inner) :
    Written strict (Format.binaryLevel op) none
      (text ++ " " ++ Format.binarySign op ++ " " ++ more)
      (.binary op node other ()) := by
  rcases hLeft with ⟨symbols, hSpells, hOpens, hPhrase⟩
  rcases hRight with ⟨others, hMore, _, hOperand⟩
  have hSign :
      (binaryKind op).written = Format.binarySign op := by
    cases op <;> rfl
  have hSpaced : binaryKind op ∈ Scans.spacedSigns := by
    cases op <;> decide
  have hPositive : 0 < Format.binaryLevel op := by
    cases op <;> decide
  have hParts :=
    exists_spaced (Format.binaryLevel op) hSpaced
      (by cases op <;> rfl) hSpells hOpens (by omega) hMore
  rw [hSign] at hParts
  refine ⟨_, hParts.1, hParts.2, ?_⟩
  exact
    Phrase.binary (by cases op <;> rfl) (by cases op <;> rfl)
      hPhrase hLevel hOperand hInner

/- Two operands that are not equal. -/
theorem notEqual
    (hLeft : Written strict level open? text node)
    (hLevel : 3 ≤ level)
    (hRight : Written strict inner innerOpen? more other)
    (hInner : 3 < inner) :
    Written strict 3 none (text ++ " != " ++ more)
      (.unary .not (.binary .equals node other ()) ()) := by
  rcases hLeft with ⟨symbols, hSpells, hOpens, hPhrase⟩
  rcases hRight with ⟨others, hMore, _, hOperand⟩
  have hText :
      text ++ " != " ++ more =
        text ++ " " ++ TokenKind.written .notEqual ++ " " ++
          more := by
    have hSign : TokenKind.written .notEqual = "!=" := rfl
    simp [hSign, Text.ofString]
  have hKind : TokenKind.notEqual ∈ Scans.spacedSigns := by
    decide
  have hParts :=
    exists_spaced 3 hKind rfl hSpells hOpens (by omega) hMore
  rw [hText]
  exact
    ⟨_, hParts.1, hParts.2,
      hPhrase.notEqual hLevel hOperand hInner⟩

------------------------------------------------------------
-- Operators With Any Number Of Operands
------------------------------------------------------------

/- The sign of an operator between any number of operands. -/
def variadicKind : VariadicOp → TokenKind
  | .sum => .plus
  | .product => .star
  | .or => .or
  | .and => .and
  | .coalesce => .coalesce

/- A variadic sign stands between blanks and gives nothing to a name. -/
theorem spaced_of_variadic?
    {kind : TokenKind}
    {op : VariadicOp}
    (hKind : kind.variadic? = some op) :
    kind ∈ Scans.spacedSigns ∧ kind.afterName = false := by
  cases kind <;> first
    | exact ⟨by decide, rfl⟩
    | cases hKind

/-
  A text is written for the operands that an operator has so
  far, and goes on with a sign and a further operand.
-/
def Grows
    (strict : Bool)
    (op : VariadicOp)
    (text : Text)
    (operands : List (Node Unit)) : Prop :=
  ∀ (kind : TokenKind) (more : Text) (inner : Nat)
    (innerOpen? : Option VariadicOp) (right : Node Unit),
    kind.variadic? = some op →
    Written strict inner innerOpen? more right →
    op.level < inner →
    Written strict op.level (some op)
      (text ++ " " ++ kind.written ++ " " ++ more)
      (.variadic op (operands ++ [Phrase.added kind right]) ())

/- What a phrase goes on with, its text goes on with. -/
theorem grows_of_phrase
    {op : VariadicOp}
    {symbols : List Symbol}
    {operands : List (Node Unit)}
    (hSpells : Spells text symbols)
    (hOpens : Opens level text symbols)
    (hLevel : 0 < level)
    (hPhrase :
      ∀ (kind : TokenKind) (inner : Nat)
        (innerOpen? : Option VariadicOp) (others : List Symbol)
        (right : Node Unit),
        kind.variadic? = some op →
        Phrase strict inner innerOpen? others right →
        op.level < inner →
        Phrase strict op.level (some op)
          (symbols ++ .fixed kind :: others)
          (.variadic op (operands ++ [Phrase.added kind right])
            ())) :
    Grows strict op text operands := by
  intro kind more inner innerOpen? right hKind hRight hInner
  rcases hRight with ⟨others, hMore, _, hOperand⟩
  rcases spaced_of_variadic? hKind with ⟨hSpaced, hName⟩
  have hParts :=
    exists_spaced op.level hSpaced hName hSpells hOpens hLevel
      hMore
  exact
    ⟨_, hParts.1, hParts.2,
      hPhrase kind inner innerOpen? others right hKind hOperand
        hInner⟩

/- The first operand is none that the operator would add to. -/
theorem grows_first
    {op : VariadicOp}
    (hWritten : Written strict level open? text node)
    (hLevel : op.level ≤ level)
    (hOpen : open? ≠ some op) :
    Grows strict op text [node] := by
  rcases hWritten with ⟨symbols, hSpells, hOpens, hPhrase⟩
  have hPositive : 0 < op.level := by
    cases op <;> decide
  apply grows_of_phrase hSpells hOpens (by omega)
  intro kind inner innerOpen? others right hKind hRight hInner
  exact .start hKind hPhrase hLevel hOpen hRight hInner

/- Further operands are added to those that are there. -/
theorem grows_further
    {op : VariadicOp}
    {operands : List (Node Unit)}
    (hWritten :
      Written strict op.level (some op) text
        (.variadic op operands ())) :
    Grows strict op text operands := by
  rcases hWritten with ⟨symbols, hSpells, hOpens, hPhrase⟩
  have hPositive : 0 < op.level := by
    cases op <;> decide
  apply grows_of_phrase hSpells hOpens hPositive
  intro kind inner innerOpen? others right hKind hRight hInner
  exact .extend hKind hPhrase hRight hInner

end Written

------------------------------------------------------------
-- Lists Between Brackets
------------------------------------------------------------

variable {strict : Bool}
variable {level inner : Nat}
variable {open? innerOpen? : Option VariadicOp}
variable {text more : Text}
variable {node other : Node Unit}

/- A text is written for expressions with commas between them. -/
def Listed
    (strict : Bool)
    (text : Text)
    (nodes : List (Node Unit)) : Prop :=
  ∃ symbols,
    Spells text symbols ∧
      Starts symbols ∧
      Separated strict symbols nodes

namespace Listed

variable {nodes : List (Node Unit)}

theorem single
    (hWritten : Written strict level open? text node) :
    Listed strict text [node] := by
  rcases hWritten with ⟨symbols, hSpells, hOpens, hPhrase⟩
  exact ⟨symbols, hSpells, hOpens.starts, .single hPhrase⟩

/- More tokens after a comma start like those before it. -/
theorem starts_comma
    {symbols : List Symbol}
    (hStarts : Starts symbols)
    (others : List Symbol) :
    Starts (symbols ++ .fixed .comma :: others) := by
  rcases hStarts.operand with ⟨first, tail, rfl, hFirst⟩
  constructor
  · exact ⟨first, tail ++ .fixed .comma :: others, rfl, hFirst⟩
  · rintro _ second rest hSymbols hKind
    cases tail with
    | nil =>
        cases hSymbols
        rfl
    | cons found tail =>
        cases hSymbols
        exact hStarts.unassigned _ _ _ rfl hKind

theorem cons
    (hWritten : Written strict level open? text node)
    (hMore : Listed strict more nodes) :
    Listed strict (text ++ ", " ++ more) (node :: nodes) := by
  rcases hWritten with ⟨symbols, hSpells, hOpens, hPhrase⟩
  rcases hMore with ⟨others, hOthers, _, hSeparated⟩
  rw [List.append_assoc]
  exact
    ⟨_, Format.spells_comma hSpells hOthers,
      starts_comma hOpens.starts others,
      .cons hPhrase hSeparated⟩

end Listed

namespace Written

/- Items between brackets. -/
theorem array
    {nodes : List (Node Unit)}
    (hListed : Listed strict text nodes) :
    Written strict 9 none ("[" ++ text ++ "]")
      (.array nodes ()) := by
  rcases hListed with ⟨symbols, hSpells, hStarts, hSeparated⟩
  have hWhole :
      Spells
        (TokenKind.written .leftBracket ++ text ++
          TokenKind.written .rightBracket)
        (.fixed .leftBracket ::
          (symbols ++ [.fixed .rightBracket])) :=
    hSpells.enclosed (by decide) rfl (by decide) rfl
  exact
    ⟨_, hWhole, .of_first rfl (by simp) (by simp),
      .array hStarts hSeparated⟩

theorem array_nil : Written strict 9 none "[]" (.array [] ()) := by
  have hEmpty :
      Spells
        (TokenKind.written .leftBracket ++
          TokenKind.written .rightBracket)
        [.fixed .leftBracket, .fixed .rightBracket] :=
    Format.spells_empty (by decide) (by decide) rfl
  exact
    ⟨_, hEmpty, .of_first rfl (by simp) (by simp),
      .array_nil⟩

end Written

------------------------------------------------------------
-- Calls
------------------------------------------------------------

/- A name before what stands between parentheses. -/
theorem spells_call
    {name : Text}
    {symbols : List Symbol}
    (hName : Format.isName name = true)
    (hSpells : Spells text symbols) :
    Spells (name ++ "(" ++ text ++ ")")
      (.name name :: .fixed .leftParen ::
        (symbols ++ [.fixed .rightParen])) := by
  have hClosed :
      Spells (text ++ TokenKind.written .rightParen)
        (symbols ++ [.fixed .rightParen]) :=
    hSpells.append_mark (by decide) rfl
  have hWhole :
      Spells
        (name ++
          (TokenKind.written .leftParen ++
            (text ++ TokenKind.written .rightParen)))
        ([.name name] ++ .fixed .leftParen ::
          (symbols ++ [.fixed .rightParen])) :=
    (spells_name hName).mark_between (by decide) rfl hClosed
  simp only [List.append_assoc]
  exact hWhole

/- A call opens with its name. -/
theorem Opens.call
    (name text : Text)
    (symbols : List Symbol) :
    Opens level (name ++ "(" ++ text ++ ")")
      (.name name :: .fixed .leftParen :: symbols) := by
  have hName : Opens 9 name [.name name] := .name name
  have hOpens :
      Opens level
        (name ++ .char '(' :: (text ++ Text.ofString ")"))
        ([.name name] ++ .fixed .leftParen :: symbols) :=
    hName.append (by omega) (by decide +kernel) rfl
  simp only [List.append_assoc]
  exact hOpens

/- The name of an argument before its value. -/
theorem spells_argument
    {name : Text}
    {symbols : List Symbol}
    (hName : Format.isName name = true)
    (hStarts : Starts symbols)
    (hSpells : Spells text symbols) :
    Spells (name ++ "=" ++ text)
      (.name name :: .fixed .assign :: symbols) := by
  have hValue :
      Spells (.char '=' :: text) (.fixed .assign :: symbols) := by
    refine .of_scans fun ended rest hRest => ?_
    rcases hStarts.operand with ⟨first, tail, rfl, hFirst⟩
    have hHead :
        ∀ c ∈ (text ++ rest).head?, c ≠ '=' ∧ c ≠ '>' := by
      cases text with
      | nil => exact absurd rfl hSpells.ne_nil
      | cons c tail => exact hSpells.head_ne hFirst
    have hAfter :=
      hSpells false rest (fun hTrue => nomatch hTrue) hRest
    exact (Scans.assign hHead).trans hAfter
  have hWhole :
      Spells (name ++ .char '=' :: text)
        ([.name name] ++ .fixed .assign :: symbols) :=
    (spells_name hName).append hValue (by decide) (by decide)
  rw [List.append_assoc]
  exact hWhole

/- A text is written for named arguments with commas between them. -/
def Named
    (strict : Bool)
    (text : Text)
    (arguments : List (Text × Node Unit)) : Prop :=
  ∃ symbols,
    Spells text symbols ∧
      (∃ key more, symbols = .name key :: .fixed .assign :: more) ∧
      Arguments strict symbols arguments

namespace Named

variable {name : Text}

theorem single
    (hName : Format.isName name = true)
    (hWritten : Written strict level open? text node) :
    Named strict (name ++ "=" ++ text) [(name, node)] := by
  rcases hWritten with ⟨symbols, hSpells, hOpens, hPhrase⟩
  exact
    ⟨_, spells_argument hName hOpens.starts hSpells,
      ⟨name, _, rfl⟩, .single hPhrase⟩

theorem cons
    {arguments : List (Text × Node Unit)}
    (hName : Format.isName name = true)
    (hWritten : Written strict level open? text node)
    (hMore : Named strict more arguments) :
    Named strict (name ++ "=" ++ text ++ ", " ++ more)
      ((name, node) :: arguments) := by
  rcases hWritten with ⟨symbols, hSpells, hOpens, hPhrase⟩
  rcases hMore with ⟨others, hOthers, _, hArguments⟩
  have hFirst := spells_argument hName hOpens.starts hSpells
  rw [List.append_assoc]
  exact
    ⟨_, Format.spells_comma hFirst hOthers, ⟨name, _, rfl⟩,
      .cons hPhrase hArguments⟩

end Named

namespace Written

variable {name : Text}

/- A name with arguments by position. -/
theorem call
    {nodes : List (Node Unit)}
    (hName : Format.isName name = true)
    (hListed : Listed strict text nodes) :
    Written strict 8 none (name ++ "(" ++ text ++ ")")
      (.call name nodes ()) := by
  rcases hListed with ⟨symbols, hSpells, hStarts, hSeparated⟩
  exact
    ⟨_, spells_call hName hSpells, .call name text _,
      .callWith name hStarts hSeparated⟩

/- A name with named arguments. -/
theorem callNamed
    {arguments : List (Text × Node Unit)}
    (hName : Format.isName name = true)
    (hDistinct : (Fields.names arguments).Nodup)
    (hNamed : Named strict text arguments) :
    Written strict 8 none (name ++ "(" ++ text ++ ")")
      (.callNamed name arguments ()) := by
  rcases hNamed with ⟨symbols, hSpells, hFirst, hArguments⟩
  exact
    ⟨_, spells_call hName hSpells, .call name text _,
      .callNamed name hFirst hDistinct hArguments⟩

/- A name with no arguments. -/
theorem callNamed_nil
    (hName : Format.isName name = true) :
    Written strict 8 none
      (name ++ "(" ++ ([] : Text) ++ ")")
      (.callNamed name [] ()) := by
  have hEmpty :
      Spells
        (TokenKind.written .leftParen ++
          TokenKind.written .rightParen)
        [.fixed .leftParen, .fixed .rightParen] :=
    Format.spells_empty (by decide) (by decide) rfl
  have hWhole :
      Spells (name ++ "()")
        ([.name name] ++
          [.fixed .leftParen, .fixed .rightParen]) :=
    (spells_name hName).append hEmpty (by decide) (by decide)
  have hOpens :
      Opens 8 (name ++ "(" ++ ([] : Text) ++ ")")
        [.name name, .fixed .leftParen, .fixed .rightParen] :=
    .call name [] _
  simp only [List.append_assoc] at hOpens ⊢
  exact ⟨_, hWhole, hOpens, .callNamed_nil name⟩

end Written

end ExperimentScript
