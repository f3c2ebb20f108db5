import ExperimentScript.Proofs.Format.Written

/-
  Lines and chains that are read as a given node.

  The lines of a body are scanned one after another, each up
  to its semicolon, whatever comes after it. Bodies between
  braces are blocks and switches. The steps of an if-chain
  stand on one line, and what a step decides on is kept from
  being read with what stands around it.

  Key definitions include:
    * `ExperimentScript.Scanned`
    * `ExperimentScript.Body`
    * `ExperimentScript.CaseBody`
    * `ExperimentScript.Decided`
    * `ExperimentScript.Chained`

  Main declarations:
    * `ExperimentScript.Written.block`
    * `ExperimentScript.Written.switch`
    * `ExperimentScript.Decided.of_written`
    * `ExperimentScript.Written.chain`
-/

namespace ExperimentScript

variable {strict : Bool}
variable {level inner : Nat}
variable {open? innerOpen? : Option VariadicOp}
variable {text more : Text}
variable {symbols others : List Symbol}
variable {node other : Node Unit}

------------------------------------------------------------
-- Lines
------------------------------------------------------------

/- A text that ends no operand is scanned before any rest. -/
def Scanned
    (text : Text)
    (symbols : List Symbol) : Prop :=
  ∀ rest, Scans false (text ++ rest) symbols false rest

namespace Scanned

theorem nil : Scanned [] [] :=
  fun rest => .done false rest

/- A line ends with a semicolon. -/
theorem line
    (width : Nat)
    (hSpells : Spells text symbols) :
    Scanned (Text.blanks width ++ text ++ ";")
      (symbols ++ [.fixed .semicolon]) := by
  intro rest
  have hEnd :
      Scans true (TokenKind.written .semicolon ++ rest)
        [.fixed .semicolon]
        (TokenKind.endsOperand .semicolon) rest :=
    Scans.mark (by decide)
  have hText :=
    hSpells false (TokenKind.written .semicolon ++ rest)
      (fun hTrue => nomatch hTrue)
      (Spells.apart_mark (by decide) rest)
  simp only [List.append_assoc]
  exact (Scans.blanks width).trans (hText.trans hEnd)

/- A line before others. -/
theorem join_cons
    {lines : List Text}
    (hLine : Scanned text symbols)
    (hLines : Scanned (Text.join "\n" lines) others) :
    Scanned (Text.join "\n" (text :: lines))
      (symbols ++ others) := by
  intro rest
  cases lines with
  | nil =>
      rw [Text.join_singleton]
      exact (hLine rest).trans (hLines rest)
  | cons next lines =>
      rw [Text.join_cons_cons]
      simp only [List.append_assoc]
      exact (hLine _).trans (Scans.newline.trans (hLines rest))

/- Lines between braces. -/
theorem spells_block
    (width : Nat)
    (hScanned : Scanned text symbols) :
    Spells
      ("\x7b\n" ++ text ++ "\n" ++ Text.blanks width ++ "\x7d")
      (.fixed .leftBrace :: (symbols ++ [.fixed .rightBrace])) := by
  refine .of_scans fun ended rest hRest => ?_
  have hOpening :
      Scans ended
        (TokenKind.written .leftBrace ++
          .char '\n' ::
            (text ++ .char '\n' ::
              (Text.blanks width ++
                (TokenKind.written .rightBrace ++ rest))))
        [.fixed .leftBrace] (TokenKind.endsOperand .leftBrace) _ :=
    Scans.mark (by decide)
  have hClosing :
      Scans false (TokenKind.written .rightBrace ++ rest)
        [.fixed .rightBrace]
        (TokenKind.endsOperand .rightBrace) rest :=
    Scans.mark (by decide)
  have hLast := (Scans.blanks width).trans hClosing
  have hBody := (hScanned _).trans (Scans.newline.trans hLast)
  simp only [List.append_assoc]
  exact hOpening.trans (Scans.newline.trans hBody)

end Scanned

------------------------------------------------------------
-- Blocks
------------------------------------------------------------

/- Some lines are written for the statements of a block. -/
def Body
    (strict : Bool)
    (lines : List Text)
    (nodes : List (Node Unit)) : Prop :=
  ∃ symbols,
    Scanned (Text.join "\n" lines) symbols ∧
      Statements strict symbols nodes

namespace Body

variable {lines : List Text}
variable {nodes : List (Node Unit)}

theorem nil : Body strict [] [] :=
  ⟨[], .nil, .nil⟩

/- An expression on a line of its own. -/
theorem cons
    (width : Nat)
    (hWritten : Written strict level open? text node)
    (hBody : Body strict lines nodes) :
    Body strict ((Text.blanks width ++ text ++ ";") :: lines)
      (node :: nodes) := by
  rcases hWritten with ⟨symbols, hSpells, hOpens, hPhrase⟩
  rcases hBody with ⟨others, hScanned, hStatements⟩
  have hLines := (Scanned.line width hSpells).join_cons hScanned
  rw [List.append_assoc symbols] at hLines
  exact ⟨_, hLines, .cons hOpens.starts hPhrase hStatements⟩

/- A name that a value is assigned to on a line of its own. -/
theorem cons_assign
    {name : Text}
    (width : Nat)
    (hName : Format.isName name = true)
    (hWritten : Written strict level open? text node)
    (hBody : Body strict lines nodes) :
    Body strict
      ((Text.blanks width ++ name ++ " = " ++ text ++ ";") ::
        lines)
      (.assign name node () :: nodes) := by
  rcases hWritten with ⟨symbols, hSpells, hOpens, hPhrase⟩
  rcases hBody with ⟨others, hScanned, hStatements⟩
  have hAssign :
      Spells
        (name ++ .char ' ' ::
          (TokenKind.written .assign ++ .char ' ' :: text))
        ([.name name] ++ .fixed .assign :: symbols) :=
    (spells_name hName).spaced (by decide) hSpells
  have hLines := (Scanned.line width hAssign).join_cons hScanned
  simp only [List.append_assoc, List.cons_append,
    List.nil_append] at hLines ⊢
  exact ⟨_, hLines, .cons_assign hPhrase hStatements⟩

end Body

namespace Written

/- Statements between braces, one a line. -/
theorem block
    {lines : List Text}
    {nodes : List (Node Unit)}
    (width : Nat)
    (hBody : Body strict lines nodes) :
    Written strict 9 none
      ("\x7b\n" ++ Text.join "\n" lines ++ "\n" ++
        Text.blanks width ++ "\x7d")
      (.sequence nodes ()) := by
  rcases hBody with ⟨symbols, hScanned, hStatements⟩
  exact
    ⟨_, hScanned.spells_block width,
      .of_first rfl (by simp) (by simp), .block hStatements⟩

theorem block_nil :
    Written strict 9 none "\x7b\x7d" (.sequence [] ()) := by
  have hEmpty :
      Spells
        (TokenKind.written .leftBrace ++
          TokenKind.written .rightBrace)
        [.fixed .leftBrace, .fixed .rightBrace] :=
    Format.spells_empty (by decide) (by decide) rfl
  exact
    ⟨_, hEmpty, .of_first rfl (by simp) (by simp), .block .nil⟩

end Written

------------------------------------------------------------
-- Switches
------------------------------------------------------------

/- Some lines are written for the cases of a switch. -/
def CaseBody
    (strict : Bool)
    (lines : List Text)
    (cases : List (Case Unit)) : Prop :=
  ∃ symbols,
    Scanned (Text.join "\n" lines) symbols ∧
      Cases strict symbols cases

namespace CaseBody

theorem nil : CaseBody strict [] [] :=
  ⟨[], .nil, .nil⟩

/- A guard that opens with a soft word is parenthesised. -/
theorem exists_guard
    {guard : Text}
    (word : Text)
    (hWord :
      ∀ text : Text,
        Format.startsWithWord word ("(" ++ text ++ ")") = false)
    (hGuard : Written strict level open? guard node) :
    ∃ symbols found found?,
      Spells
          (Format.parens (Format.startsWithWord word guard) guard)
          symbols ∧
        Starts symbols ∧
        Unconnected word symbols ∧
        Phrase strict found found? symbols node := by
  cases hNeeded : Format.startsWithWord word guard with
  | true =>
      rcases hGuard.parenthesised with
        ⟨symbols, hSpells, hOpens, hPhrase⟩
      exact
        ⟨symbols, 9, none, hSpells, hOpens.starts,
          hOpens.unconnected (hWord guard), hPhrase⟩
  | false =>
      rcases hGuard with ⟨symbols, hSpells, hOpens, hPhrase⟩
      exact
        ⟨symbols, level, open?, hSpells, hOpens.starts,
          hOpens.unconnected hNeeded, hPhrase⟩

/- A case on a line of its own. -/
theorem cons
    {lines : List Text}
    {cases : List (Case Unit)}
    (width : Nat)
    (hGuard : Written strict level open? text node)
    (hResult : Written strict inner innerOpen? more other)
    (hBody : CaseBody strict lines cases) :
    CaseBody strict
      ((Text.blanks width ++
          Format.parens (Format.startsWithWord "case" text) text ++
          " => " ++ more ++ ";") :: lines)
      (.mk node other :: cases) := by
  rcases exists_guard "case" (fun _ => rfl) hGuard with
    ⟨guards, found, found?, hFront, hStarts, hWord, hFirst⟩
  rcases hResult with ⟨symbols, hSpells, _, hPhrase⟩
  rcases hBody with ⟨others, hScanned, hCases⟩
  have hCase :
      Spells
        (Format.parens (Format.startsWithWord "case" text) text ++
          .char ' ' ::
            (TokenKind.written .fatArrow ++ .char ' ' :: more))
        (guards ++ .fixed .fatArrow :: symbols) :=
    hFront.spaced (by decide) hSpells
  have hLines := (Scanned.line width hCase).join_cons hScanned
  simp only [List.append_assoc, List.cons_append,
    List.nil_append] at hLines ⊢
  exact ⟨_, hLines, .cons hStarts hWord hFirst hPhrase hCases⟩

end CaseBody

namespace Written

/- Cases between braces, one a line. -/
theorem switch
    {lines : List Text}
    {cases : List (Case Unit)}
    (width : Nat)
    (hBody : CaseBody strict lines cases) :
    Written strict 9 none
      ("switch \x7b\n" ++ Text.join "\n" lines ++ "\n" ++
        Text.blanks width ++ "\x7d")
      (.switch cases ()) := by
  rcases hBody with ⟨symbols, hScanned, hCases⟩
  have hKind :
      TokenKind.switchWord ∈ TokenKind.words.map Prod.snd := by
    decide
  have hWhole :=
    (hScanned.spells_block width).reserved_space hKind rfl
  exact
    ⟨_, hWhole, .of_first rfl (by simp) (by simp),
      .switch hCases⟩

theorem switch_nil :
    Written strict 9 none "switch \x7b\x7d"
      (.switch [] ()) := by
  have hEmpty :
      Spells
        (TokenKind.written .leftBrace ++
          TokenKind.written .rightBrace)
        [.fixed .leftBrace, .fixed .rightBrace] :=
    Format.spells_empty (by decide) (by decide) rfl
  have hWhole :
      Spells
        (TokenKind.written .switchWord ++ .char ' ' ::
          (TokenKind.written .leftBrace ++
            TokenKind.written .rightBrace))
        [.fixed .switchWord, .fixed .leftBrace,
          .fixed .rightBrace] :=
    hEmpty.reserved_space (by decide) rfl
  exact
    ⟨_, hWhole, .of_first rfl (by simp) (by simp), .switch .nil⟩

end Written

------------------------------------------------------------
-- If-Chains
------------------------------------------------------------

/- Only chains and returns do not bind. -/
theorem Format.reachesRight_or_level_pos
    {α : Type}
    (node : Node α) :
    (∃ steps mark, node = .cond steps mark) ∨
      (∃ value mark, node = .return value mark) ∨
        0 < Format.level node := by
  unfold Format.level
  split
  case h_1 => exact .inl ⟨_, _, rfl⟩
  case h_2 => exact .inr (.inl ⟨_, _, rfl⟩)
  case h_4 op _ _ =>
    refine .inr (.inr ?_)
    cases op <;> decide
  case h_5 op _ _ _ =>
    refine .inr (.inr ?_)
    cases op <;> decide
  all_goals exact .inr (.inr (by decide))

/-
  A text is written for what a guard or an `else` decides on,
  and begins with no sign that would join a number.
-/
def Decided
    (strict : Bool)
    (text : Text)
    (node : Node Unit) : Prop :=
  ∃ symbols,
    Spells text symbols ∧
      Format.startsSigned text = false ∧
      Consequence strict symbols node

namespace Decided

/- What binds and opens with neither a soft word nor a signed number. -/
theorem of_written
    (hWritten : Written strict level open? text node)
    (hLevel : 0 < level)
    (hWord : Format.startsWithWord "then" text = false)
    (hSigned : Format.startsSigned text = false) :
    Decided strict text node := by
  rcases hWritten with ⟨symbols, hSpells, hOpens, hPhrase⟩
  refine ⟨symbols, hSpells, hSigned, ?_⟩
  refine
    ⟨hOpens.starts, hOpens.unconnected hWord, ?_,
      level, open?, hLevel, hPhrase⟩
  intro first tail hSymbols hKind
  have hZero := hOpens.chain first tail hSymbols hKind
  omega

/- A consequence in its parentheses, if it needs them. -/
theorem consequence
    {α : Type}
    {node : Node α}
    (hWritten :
      Written strict (Format.level node) open? text node.unmark) :
    Decided strict (Format.consequence node text)
      node.unmark := by
  have hClosed :
      Decided strict ("(" ++ text ++ ")") node.unmark :=
    of_written hWritten.parenthesised (by omega) rfl rfl
  have hBare :
      0 < Format.level node →
      Decided strict
        (Format.parens
          (Format.startsWithWord "then" text ||
            Format.startsSigned text) text)
        node.unmark := by
    intro hLevel
    cases hNeeded :
        (Format.startsWithWord "then" text ||
          Format.startsSigned text) with
    | true => exact hClosed
    | false =>
        rcases Bool.or_eq_false_iff.mp hNeeded with
          ⟨hWord, hSigned⟩
        exact of_written hWritten hLevel hWord hSigned
  unfold Format.consequence
  rcases Format.reachesRight_or_level_pos node with
    ⟨steps, mark, rfl⟩ | ⟨value, mark, rfl⟩ | hLevel
  · exact hClosed
  · exact hClosed
  · have hParens := hBare hLevel
    split
    · exact hClosed
    · exact hClosed
    · exact hParens

end Decided

/- A blank before what begins with no signed number. -/
theorem spells_blank
    (hSigned : Format.startsSigned text = false)
    (hSpells : Spells text symbols) :
    Spells (.char ' ' :: text) symbols := by
  refine .of_scans fun ended rest hRest => ?_
  exact Scans.space.trans (hSpells ended rest (fun _ => hSigned) hRest)

/- A guard between parentheses and what it decides on. -/
theorem spells_test
    (hGuard : Spells text symbols)
    (hSpells : Spells more others)
    (hSigned : Format.startsSigned more = false) :
    Spells ("if (" ++ text ++ ") " ++ more)
      (.fixed .ifWord :: .fixed .leftParen ::
        (symbols ++ .fixed .rightParen :: others)) := by
  have hEnclosed :
      Spells
        (TokenKind.written .leftParen ++ text ++
          TokenKind.written .rightParen)
        (.fixed .leftParen :: (symbols ++ [.fixed .rightParen])) :=
    hGuard.enclosed (by decide) rfl (by decide) rfl
  have hStep :=
    hEnclosed.append (spells_blank hSigned hSpells) (by decide)
      (by decide)
  have hKind :
      TokenKind.ifWord ∈ TokenKind.words.map Prod.snd := by
    decide
  have hWhole := hStep.reserved_space hKind rfl
  simp only [List.append_assoc, List.cons_append,
    List.nil_append] at hWhole ⊢
  exact hWhole

/- What is decided on when no guard holds. -/
theorem spells_else
    (hText : Spells text symbols)
    (hMore : Spells more others) :
    Spells (text ++ (" " ++ ("else " ++ more)))
      (symbols ++ .fixed .elseWord :: others) := by
  have hElse :
      Spells (TokenKind.written .elseWord ++ .char ' ' :: more)
        (.fixed .elseWord :: others) :=
    hMore.reserved_space (by decide) rfl
  exact
    hText.append (spells_blank rfl hElse) (by decide) (by decide)

/- A text is written for the steps of an if-chain. -/
def Chained
    (strict : Bool)
    (text : Text)
    (steps : List (Branch Unit)) : Prop :=
  ∃ symbols,
    Spells text (.fixed .ifWord :: symbols) ∧
      Steps strict symbols steps

namespace Chained

/- One step alone. -/
theorem single
    (hGuard : Written strict level open? text node)
    (hDecided : Decided strict more other) :
    Chained strict ("if (" ++ text ++ ") " ++ more)
      [.test node other] := by
  rcases hGuard with ⟨guards, hFront, _, hPhrase⟩
  rcases hDecided with ⟨symbols, hSpells, hSigned, hConsequence⟩
  exact
    ⟨_, spells_test hFront hSpells hSigned,
      .single hPhrase hConsequence⟩

/- A step and what is decided on when its guard does not hold. -/
theorem otherwise
    {last : Text}
    {node other otherwise : Node Unit}
    (hGuard : Written strict level open? text node)
    (hDecided : Decided strict more other)
    (hLast : Decided strict last otherwise) :
    Chained strict
      ("if (" ++ text ++ ") " ++ more ++
        (" " ++ ("else " ++ last)))
      [.test node other, .otherwise otherwise] := by
  rcases hGuard with ⟨guards, hFront, _, hPhrase⟩
  rcases hDecided with ⟨symbols, hSpells, hSigned, hConsequence⟩
  rcases hLast with ⟨others, hOthers, _, hEnd⟩
  have hWhole :=
    spells_else (spells_test hFront hSpells hSigned) hOthers
  simp only [List.cons_append, List.append_assoc] at hWhole ⊢
  exact ⟨_, hWhole, .otherwise hPhrase hConsequence hEnd⟩

/- A step before others. -/
theorem cons
    {rest : Text}
    {steps : List (Branch Unit)}
    (hGuard : Written strict level open? text node)
    (hDecided : Decided strict more other)
    (hMore : Chained strict rest steps) :
    Chained strict
      ("if (" ++ text ++ ") " ++ more ++
        (" " ++ ("else " ++ rest)))
      (.test node other :: steps) := by
  rcases hGuard with ⟨guards, hFront, _, hPhrase⟩
  rcases hDecided with ⟨symbols, hSpells, hSigned, hConsequence⟩
  rcases hMore with ⟨others, hOthers, hSteps⟩
  have hWhole :=
    spells_else (spells_test hFront hSpells hSigned) hOthers
  simp only [List.cons_append, List.append_assoc] at hWhole ⊢
  exact ⟨_, hWhole, .cons hPhrase hConsequence hSteps⟩

end Chained

/- The steps of an if-chain are read as far right as they reach. -/
theorem Written.chain
    {steps : List (Branch Unit)}
    (hChained : Chained strict text steps) :
    Written strict 0 none text (.cond steps ()) := by
  rcases hChained with ⟨symbols, hSpells, hSteps⟩
  exact
    ⟨_, hSpells, .of_first rfl (by simp) (fun _ => rfl),
      .ifChain hSteps⟩

end ExperimentScript
