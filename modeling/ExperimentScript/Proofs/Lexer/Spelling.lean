import ExperimentScript.Format.Script
import ExperimentScript.Proofs.Json.Quoting
import ExperimentScript.Proofs.Lexer.Sound
import ExperimentScript.Proofs.Number.Notation

/-
  Texts that spell tokens.

  `Scans` says that from the front of a text some tokens are
  read and a rest is left. Runs of reading are put together
  from lexemes, so that the text of a tree is scanned part by
  part. `Spells` says it of a text that stands before any rest
  that does not continue its last word or number.

  Key definitions include:
    * `ExperimentScript.Symbol`
    * `ExperimentScript.Scans`
    * `ExperimentScript.Spells`

  Main declarations:
    * `ExperimentScript.Scans.trans`
    * `ExperimentScript.Scans.tokenize`
    * `ExperimentScript.spells_name`
    * `ExperimentScript.spells_numeral`
    * `ExperimentScript.spells_quote`
-/

namespace ExperimentScript

------------------------------------------------------------
-- Tokens Without Their Places
------------------------------------------------------------

/- What a token is, wherever it stands. -/
structure Symbol where
  kind : TokenKind
  text : Text
  literal : Option Value

/- How a reserved word or a sign is written. -/
def TokenKind.written (kind : TokenKind) : Text :=
  kind.spelling?.getD []

namespace Symbol

/- A reserved word or a sign. -/
def fixed (kind : TokenKind) : Symbol :=
  ⟨kind, kind.written, none⟩

/- An identifier. -/
def name (text : Text) : Symbol :=
  ⟨.identifier, text, none⟩

@[simp] theorem kind_fixed (kind : TokenKind) :
    (fixed kind).kind = kind := rfl

@[simp] theorem kind_name (text : Text) :
    (name text).kind = .identifier := rfl

@[simp] theorem text_name (text : Text) :
    (name text).text = text := rfl

end Symbol

/- What a token is without its place. -/
def Token.symbol (token : Token) : Symbol :=
  ⟨token.kind, token.text, token.literal⟩

/- What the token of a lexeme is, if it gives one. -/
def Lexeme.symbols (lexeme : Lexeme) : List Symbol :=
  match lexeme.kind with
  | none => []
  | some kind => [⟨kind, lexeme.text, lexeme.literal⟩]

------------------------------------------------------------
-- Runs Of Scanning
------------------------------------------------------------

/-
  From the front of a text some tokens are read, one lexeme
  after another, and a rest is left. It is carried along
  whether an operand has just ended.
-/
inductive Scans :
    Bool → Text → List Symbol → Bool → Text → Prop where
  | done (ended : Bool) (text : Text) :
      Scans ended text [] ended text
  | step
      {ended endedAfter : Bool}
      {c : CodePoint}
      {rest after : Text}
      {lexeme : Lexeme}
      {symbols : List Symbol}
      (hNext : Lexeme.next ended c rest = .ok lexeme)
      (hMore :
        Scans (lexeme.endsOperand ended)
          (rest.drop (lexeme.text.length - 1))
          symbols endedAfter after) :
      Scans ended (c :: rest) (lexeme.symbols ++ symbols)
        endedAfter after

namespace Scans

variable {ended between endedAfter : Bool}
variable {text rest after : Text}
variable {symbols others : List Symbol}

/- One run goes on where another one has ended. -/
theorem trans
    (hFirst : Scans ended text symbols between rest)
    (hSecond : Scans between rest others endedAfter after) :
    Scans ended text (symbols ++ others) endedAfter after := by
  induction hFirst with
  | done => exact hSecond
  | step hNext hMore ih =>
      rw [List.append_assoc]
      exact .step hNext (ih hSecond)

/- The tokens of a run come before those of the rest. -/
theorem scanFrom
    (hScans : Scans ended text symbols endedAfter rest)
    (point : Point) :
    ∃ (tokens : List Token) (pointAfter : Point),
      tokens.map Token.symbol = symbols ∧
        ExperimentScript.scanFrom ended point text =
          ⟨tokens ++
            (ExperimentScript.scanFrom endedAfter pointAfter
              rest).tokens,
            (ExperimentScript.scanFrom endedAfter pointAfter
              rest).failure⟩ := by
  induction hScans generalizing point with
  | done ended text => exact ⟨[], point, rfl, rfl⟩
  | @step ended endedAfter c rest after lexeme symbols hNext hMore
      ih =>
      rcases ih (point.advance lexeme.text) with
        ⟨tokens, pointAfter, hTokens, hScan⟩
      rw [scanFrom_of_next hNext, hScan]
      unfold Scan.push Lexeme.symbols
      cases hKind : lexeme.kind with
      | none => exact ⟨tokens, pointAfter, hTokens, rfl⟩
      | some kind =>
          refine ⟨_ :: tokens, pointAfter, ?_, rfl⟩
          rw [List.map_cons, hTokens]
          rfl

/- A text that is scanned to its end has just the tokens read. -/
theorem tokenize
    (hScans : Scans false text symbols endedAfter []) :
    ∃ tokens : List Token,
      ExperimentScript.tokenize text = .ok tokens ∧
        tokens.map Token.symbol =
          symbols ++ [⟨.endOfInput, [], none⟩] := by
  rcases hScans.scanFrom .start with
    ⟨tokens, point, hTokens, hScan⟩
  rw [scanFrom_nil] at hScan
  refine ⟨tokens ++ [.endAt point], ?_, ?_⟩
  · simp only [ExperimentScript.tokenize, scan, hScan]
  · rw [List.map_append, hTokens]
    rfl

/- The first step of a run that reads something. -/
theorem exists_next
    {c : CodePoint}
    (hScans : Scans ended (c :: rest) symbols endedAfter after)
    (hSymbols : symbols ≠ []) :
    ∃ lexeme more,
      Lexeme.next ended c rest = .ok lexeme ∧
        symbols = lexeme.symbols ++ more := by
  cases hScans with
  | done => exact absurd rfl hSymbols
  | step hNext hMore => exact ⟨_, _, hNext, rfl⟩

/- A lexeme at the front of a text is one step. -/
theorem of_next
    {c : CodePoint}
    {more : Text}
    {kind : TokenKind}
    {literal : Option Value}
    (hNext :
      Lexeme.next ended c (more ++ rest) =
        .ok ⟨c :: more, some kind, literal⟩) :
    Scans ended (c :: more ++ rest) [⟨kind, c :: more, literal⟩]
      kind.endsOperand rest := by
  have hMore :
      Scans kind.endsOperand ((more ++ rest).drop more.length) []
        kind.endsOperand rest := by
    rw [List.drop_left]
    exact .done _ _
  exact .step hNext hMore

------------------------------------------------------------
-- Blank Space
------------------------------------------------------------

/- Blank space gives no token. -/
theorem blank
    {c : CodePoint}
    (hBlank : c.isBlank = true) :
    Scans ended (c :: rest) [] ended rest := by
  have hNext :
      Lexeme.next ended c rest = .ok (Lexeme.skipped [c]) := by
    simp [Lexeme.next, hBlank]
  exact .step hNext (.done _ _)

theorem space : Scans ended (.char ' ' :: rest) [] ended rest :=
  blank (by decide)

theorem newline : Scans ended (.char '\n' :: rest) [] ended rest :=
  blank (by decide)

theorem blanks (count : Nat) :
    Scans ended (Text.blanks count ++ rest) [] ended rest := by
  induction count with
  | zero => exact .done _ _
  | succ count ih =>
      exact trans space ih

------------------------------------------------------------
-- Signs
------------------------------------------------------------

/- A reserved word or a sign at the front of a text is one step. -/
theorem of_spelling
    {c : CodePoint}
    {more : Text}
    {kind : TokenKind}
    (hSpelling : kind.written = c :: more)
    (hNext :
      Lexeme.next ended c (more ++ rest) =
        .ok (.plain (c :: more) kind)) :
    Scans ended (kind.written ++ rest)
      [.fixed kind] kind.endsOperand rest := by
  rw [Symbol.fixed, hSpelling]
  exact of_next hNext

/- The signs that mean the same whatever comes after them. -/
def marks : List TokenKind :=
  [.leftParen, .rightParen, .leftBracket, .rightBracket,
   .leftBrace, .rightBrace, .comma, .semicolon, .colon, .at]

theorem mark
    {kind : TokenKind}
    (hKind : kind ∈ marks) :
    Scans ended (kind.written ++ rest)
      [.fixed kind] kind.endsOperand rest := by
  simp only [marks, List.mem_cons, List.not_mem_nil, or_false]
    at hKind
  rcases hKind with
    rfl | rfl | rfl | rfl | rfl | rfl | rfl | rfl | rfl | rfl
  all_goals
    refine of_spelling rfl ?_
    cases ended <;> cases rest <;> rfl

/- The signs that stand between blanks. -/
def spacedSigns : List TokenKind :=
  [.or, .and, .coalesce, .equal, .notEqual, .greaterEqual,
   .lessEqual, .greater, .less, .plus, .minus, .star, .slash,
   .percent, .fatArrow, .assign]

theorem spaced
    {kind : TokenKind}
    (hKind : kind ∈ spacedSigns) :
    Scans ended
      (.char ' ' :: (kind.written ++ .char ' ' :: rest))
      [.fixed kind] false rest := by
  have hEnds : kind.endsOperand = false := by
    revert kind
    decide
  have hSign :
      Scans ended (kind.written ++ .char ' ' :: rest)
        [.fixed kind] kind.endsOperand (.char ' ' :: rest) := by
    simp only [spacedSigns, List.mem_cons, List.not_mem_nil,
      or_false] at hKind
    rcases hKind with
      rfl | rfl | rfl | rfl | rfl | rfl | rfl | rfl |
        rfl | rfl | rfl | rfl | rfl | rfl | rfl | rfl
    all_goals
      refine of_spelling rfl ?_
      cases ended <;> rfl
  rw [hEnds] at hSign
  exact trans space (trans hSign space)

/- A sign of one code point that no other one makes longer. -/
theorem sign
    {c : CodePoint}
    {kind : TokenKind}
    (hNext : Lexeme.next ended c rest = Lexeme.sign c rest)
    (hLong : TokenKind.longSigns.lookup (c :: rest.take 1) = none)
    (hShort : TokenKind.shortSigns.lookup [c] = some kind) :
    Scans ended (c :: rest) [⟨kind, [c], none⟩]
      kind.endsOperand rest := by
  have hSign : Lexeme.sign c rest = .ok (.plain [c] kind) := by
    simp only [Lexeme.sign, hLong, hShort]
  exact .step (hNext.trans hSign) (.done _ _)

/- The sign of a negation before what does not make it unequal. -/
theorem bang
    (hRest : ∀ c ∈ rest.head?, c ≠ '=') :
    Scans ended (.char '!' :: rest) [.fixed .bang] false rest := by
  have hNext :
      Lexeme.next ended '!' rest = Lexeme.sign '!' rest := by
    cases ended <;> rfl
  refine sign hNext ?_ rfl
  cases rest with
  | nil => rfl
  | cons c rest =>
      have hOther := hRest c rfl
      simp [List.lookup_eq_none_iff, TokenKind.longSigns,
        Text.ofString, hOther]

/- The sign of a named argument before what does not continue it. -/
theorem assign
    (hRest : ∀ c ∈ rest.head?, c ≠ '=' ∧ c ≠ '>') :
    Scans ended (.char '=' :: rest) [.fixed .assign] false rest := by
  have hNext :
      Lexeme.next ended '=' rest = Lexeme.sign '=' rest := by
    cases ended <;> rfl
  refine sign hNext ?_ rfl
  cases rest with
  | nil => rfl
  | cons c rest =>
      rcases hRest c rfl with ⟨hEqual, hArrow⟩
      simp [List.lookup_eq_none_iff, TokenKind.longSigns,
        Text.ofString, hEqual, hArrow]

/- The sign of a negative operand is no part of a number. -/
theorem minus
    (hRest : Lexeme.unsignedAhead rest = false) :
    Scans ended (.char '-' :: rest) [.fixed .minus] false rest := by
  have hNext :
      Lexeme.next ended '-' rest = Lexeme.sign '-' rest := by
    have hNumber : Lexeme.numberAhead ended '-' rest = false := by
      rw [Lexeme.numberAhead, hRest]
      cases ended <;> rfl
    rw [Lexeme.next, hNumber]
    rfl
  refine sign hNext ?_ rfl
  cases rest with
  | nil => rfl
  | cons c rest =>
      simp [List.lookup_eq_none_iff, TokenKind.longSigns,
        Text.ofString]

end Scans

------------------------------------------------------------
-- Letters And Digits
------------------------------------------------------------

namespace CodePoint

/- Letters stand together in the order of code points, in either case. -/
theorem cases_of_isAsciiLetter
    {c : CodePoint}
    (hLetter : c.isAsciiLetter = true) :
    (65 ≤ c.toNat ∧ c.toNat ≤ 90) ∨
      (97 ≤ c.toNat ∧ c.toNat ≤ 122) := by
  cases c with
  | surrogate offset => cases hLetter
  | char c =>
      change
        (decide (c.val ≥ 'A'.val ∧ c.val ≤ 'Z'.val) ||
          (decide (c.val ≥ 'a'.val) && decide (c.val ≤ 'z'.val))) =
            true at hLetter
      simp only [Bool.or_eq_true, Bool.and_eq_true,
        decide_eq_true_eq, ge_iff_le, UInt32.le_iff_toNat_le]
        at hLetter
      simp only [toNat, Char.toNat]
      have hFirst : 'A'.val.toNat = 65 := rfl
      have hSecond : 'a'.val.toNat = 97 := rfl
      have hThird : 'Z'.val.toNat = 90 := rfl
      have hFourth : 'z'.val.toNat = 122 := rfl
      omega

theorem toNat_of_isAsciiLetter
    {c : CodePoint}
    (hLetter : c.isAsciiLetter = true) :
    65 ≤ c.toNat ∧ c.toNat ≤ 122 := by
  have hCases := cases_of_isAsciiLetter hLetter
  omega

/- Ranges that hold no letter by number hold none. -/
theorem inRanges_of_isAsciiLetter
    {c : CodePoint}
    {ranges : List (Nat × Nat)}
    (hLetter : c.isAsciiLetter = true)
    (hRanges :
      ∀ range ∈ ranges, range.2 < 65 ∨ 122 < range.1) :
    inRanges ranges c = false := by
  rcases toNat_of_isAsciiLetter hLetter with ⟨hFirst, hLast⟩
  rw [inRanges, List.any_eq_false]
  intro range hMem
  have hApart := hRanges range hMem
  simp only [decide_eq_true_eq]
  omega

theorem isBlank_of_isAsciiLetter
    {c : CodePoint}
    (hLetter : c.isAsciiLetter = true) :
    c.isBlank = false :=
  inRanges_of_isAsciiLetter hLetter (by decide)

theorem isDigit_of_isAsciiLetter
    {c : CodePoint}
    (hLetter : c.isAsciiLetter = true) :
    c.isDigit = false :=
  inRanges_of_isAsciiLetter hLetter (by decide)

/- A code point that is not a letter differs from every letter. -/
theorem ne_of_isAsciiLetter
    {c other : CodePoint}
    (hLetter : c.isAsciiLetter = true)
    (hOther : other.isAsciiLetter = false) :
    c ≠ other := by
  rintro rfl
  rw [hLetter] at hOther
  cases hOther

theorem toNat_of_isAsciiDigit
    {c : CodePoint}
    (hDigit : c.isAsciiDigit = true) :
    48 ≤ c.toNat ∧ c.toNat ≤ 57 := by
  cases c with
  | surrogate offset => cases hDigit
  | char c =>
      simp only [isAsciiDigit, Char.isDigit, Bool.and_eq_true,
        decide_eq_true_eq, ge_iff_le, UInt32.le_iff_toNat_le]
        at hDigit
      simp only [toNat, Char.toNat]
      have hFirst : '0'.val.toNat = 48 := rfl
      have hLast : '9'.val.toNat = 57 := rfl
      omega

theorem isDigit_of_isAsciiDigit
    {c : CodePoint}
    (hDigit : c.isAsciiDigit = true) :
    c.isDigit = true := by
  have hRange := toNat_of_isAsciiDigit hDigit
  simp only [isDigit, inRanges, digitRanges, List.any_cons,
    hRange, and_self, decide_true, Bool.true_or]

theorem isBlank_of_isAsciiDigit
    {c : CodePoint}
    (hDigit : c.isAsciiDigit = true) :
    c.isBlank = false := by
  have hRange := toNat_of_isAsciiDigit hDigit
  simp only [isBlank, inRanges, blankRanges, List.any_eq_false,
    decide_eq_true_eq]
  intro range hMem
  have hApart : range.2 < 48 ∨ 57 < range.1 := by
    revert range
    decide
  omega

end CodePoint

------------------------------------------------------------
-- Words
------------------------------------------------------------

/- A letter begins a word. -/
theorem Lexeme.next_of_isAsciiLetter
    {c : CodePoint}
    (hLetter : c.isAsciiLetter = true)
    (ended : Bool)
    (rest : Text) :
    next ended c rest = .ok (word (c :: rest)) := by
  have hNumber : numberAhead ended c rest = false := by
    have hPlus : c ≠ '+' :=
      CodePoint.ne_of_isAsciiLetter hLetter (by decide)
    have hMinus : c ≠ '-' :=
      CodePoint.ne_of_isAsciiLetter hLetter (by decide)
    have hPoint : c ≠ '.' :=
      CodePoint.ne_of_isAsciiLetter hLetter (by decide)
    simp [numberAhead, unsignedAhead, hPlus, hMinus, hPoint,
      CodePoint.isDigit_of_isAsciiLetter hLetter]
  have hComment : c ≠ '#' :=
    CodePoint.ne_of_isAsciiLetter hLetter (by decide)
  have hDouble : c ≠ '"' :=
    CodePoint.ne_of_isAsciiLetter hLetter (by decide)
  have hSingle : c ≠ '\'' :=
    CodePoint.ne_of_isAsciiLetter hLetter (by decide)
  simp only [next, CodePoint.isBlank_of_isAsciiLetter hLetter,
    hComment, hDouble, hSingle, hNumber, hLetter, if_true,
    if_false, Bool.false_eq_true]

/- A word ends before what does not continue a name. -/
theorem Scans.word
    {ended : Bool}
    {c : CodePoint}
    {more rest : Text}
    (hLetter : c.isAsciiLetter = true)
    (hMore : more.all CodePoint.continuesName = true)
    (hRest : rest.Apart) :
    Scans ended (c :: more ++ rest)
      [⟨(TokenKind.words.lookup (c :: more)).getD .identifier,
        c :: more, none⟩]
      ((TokenKind.words.lookup (c :: more)).getD
        .identifier).endsOperand
      rest := by
  have hFirst : c.continuesName = true := by
    simp [CodePoint.continuesName, hLetter]
  have hAll : ∀ d ∈ c :: more, d.continuesName = true := by
    simpa [hFirst] using hMore
  have hWritten :
      (c :: more ++ rest).takeWhile CodePoint.continuesName =
        c :: more := by
    rw [List.takeWhile_append_of_pos hAll]
    cases rest with
    | nil => simp
    | cons d rest => simp [(hRest d rfl).1]
  apply Scans.of_next
  rw [Lexeme.next_of_isAsciiLetter hLetter]
  simp only [Lexeme.word, ← List.cons_append, hWritten]
  rfl

/- The reserved words. -/
theorem Scans.reserved
    {ended : Bool}
    {kind : TokenKind}
    {rest : Text}
    (hKind : kind ∈ TokenKind.words.map Prod.snd)
    (hRest : rest.Apart) :
    Scans ended (kind.written ++ rest)
      [.fixed kind] kind.endsOperand rest := by
  simp only [TokenKind.words, List.map_cons, List.map_nil,
    List.mem_cons, List.not_mem_nil, or_false] at hKind
  rcases hKind with rfl | rfl | rfl | rfl | rfl | rfl | rfl
  all_goals exact Scans.word rfl rfl hRest

/- No sign of two code points begins an operand. -/
theorem Lexeme.exists_kind_of_sign
    {c : CodePoint}
    {rest : Text}
    {kind : TokenKind}
    {lexeme : Lexeme}
    (hShort : TokenKind.shortSigns.lookup [c] = some kind)
    (hKind : kind.startsOperand = false)
    (hSign : sign c rest = .ok lexeme) :
    ∃ found : TokenKind,
      found.startsOperand = false ∧
        lexeme.kind = some found := by
  simp only [sign, hShort] at hSign
  split at hSign
  · rename_i found hLookup
    cases hSign
    have hLong :=
      of_lookup (fun kind => !kind.startsOperand) (by decide)
        hLookup
    exact ⟨found, by simpa using hLong, rfl⟩
  · cases hSign
    exact ⟨kind, hKind, rfl⟩

------------------------------------------------------------
-- Texts That Spell Tokens
------------------------------------------------------------

/-
  A text spells some tokens that end an operand, before any
  rest that does not continue its last word or number. After
  an operand it may not begin with a signed number.
-/
def Spells
    (text : Text)
    (symbols : List Symbol) : Prop :=
  ∀ ended rest,
    (ended = true → Format.startsSigned text = false) →
      rest.Apart →
        Scans ended (text ++ rest) symbols true rest

/- What is scanned in every place is spelled. -/
theorem Spells.of_scans
    {text : Text}
    {symbols : List Symbol}
    (hScans :
      ∀ ended rest, rest.Apart →
        Scans ended (text ++ rest) symbols true rest) :
    Spells text symbols :=
  fun ended rest _ hRest => hScans ended rest hRest

/- What begins with no signed number goes on to begin with none. -/
theorem startsSigned_of_append
    {text more : Text}
    (hSigned : Format.startsSigned (text ++ more) = false) :
    Format.startsSigned text = false := by
  unfold Format.startsSigned at hSigned ⊢
  split
  · simpa using hSigned
  · rfl

namespace Spells

variable {text more : Text}
variable {symbols others : List Symbol}
variable {kind : TokenKind}

/- A text that begins with a sign of its own. -/
theorem mark_cons
    (hKind : kind ∈ Scans.marks)
    (hEnds : kind.endsOperand = false)
    (hText : Spells text symbols) :
    Spells (kind.written ++ text) (.fixed kind :: symbols) := by
  refine of_scans fun ended rest hRest => ?_
  have hMark :
      Scans ended (kind.written ++ (text ++ rest))
        [.fixed kind] kind.endsOperand (text ++ rest) :=
    Scans.mark hKind
  rw [hEnds] at hMark
  rw [List.append_assoc]
  exact hMark.trans (hText false rest (fun hEnded => nomatch hEnded) hRest)

/- A sign of its own does not continue a word. -/
theorem apart_mark
    (hKind : kind ∈ Scans.marks)
    (rest : Text) :
    Text.Apart (kind.written ++ rest) := by
  simp only [Scans.marks, List.mem_cons, List.not_mem_nil,
    or_false] at hKind
  rcases hKind with
    rfl | rfl | rfl | rfl | rfl | rfl | rfl | rfl | rfl | rfl
  all_goals
    intro c hMem
    cases hMem
    decide

/- A sign of its own begins no signed number. -/
theorem startsSigned_mark
    (hKind : kind ∈ Scans.marks)
    (rest : Text) :
    Format.startsSigned (kind.written ++ rest) = false := by
  simp only [Scans.marks, List.mem_cons, List.not_mem_nil,
    or_false] at hKind
  rcases hKind with
    rfl | rfl | rfl | rfl | rfl | rfl | rfl | rfl | rfl | rfl
  all_goals rfl

/- A text before a sign that ends an operand. -/
theorem append_mark
    (hKind : kind ∈ Scans.marks)
    (hEnds : kind.endsOperand = true)
    (hText : Spells text symbols) :
    Spells (text ++ kind.written) (symbols ++ [.fixed kind]) := by
  intro ended rest hEnded hRest
  have hMark :
      Scans true (kind.written ++ rest) [.fixed kind]
        kind.endsOperand rest :=
    Scans.mark hKind
  rw [hEnds] at hMark
  rw [List.append_assoc]
  have hFirst :=
    hText ended (kind.written ++ rest)
      (fun hTrue => startsSigned_of_append (hEnded hTrue))
      (apart_mark hKind rest)
  exact hFirst.trans hMark

/- Two texts with a sign between them. -/
theorem mark_between
    (hKind : kind ∈ Scans.marks)
    (hEnds : kind.endsOperand = false)
    (hText : Spells text symbols)
    (hMore : Spells more others) :
    Spells (text ++ (kind.written ++ more))
      (symbols ++ .fixed kind :: others) := by
  intro ended rest hEnded hRest
  have hSecond :=
    hMore.mark_cons hKind hEnds true rest
      (fun _ => startsSigned_mark hKind more) hRest
  rw [List.append_assoc] at hSecond ⊢
  have hFirst :=
    hText ended (kind.written ++ (more ++ rest))
      (fun hTrue => startsSigned_of_append (hEnded hTrue))
      (apart_mark hKind _)
  rw [List.append_assoc]
  exact hFirst.trans hSecond

/- Two texts with a sign and a blank between them. -/
theorem mark_space
    (hKind : kind ∈ Scans.marks)
    (hEnds : kind.endsOperand = false)
    (hText : Spells text symbols)
    (hMore : Spells more others) :
    Spells (text ++ (kind.written ++ .char ' ' :: more))
      (symbols ++ .fixed kind :: others) := by
  intro ended rest hEnded hRest
  have hMark :
      Scans true (kind.written ++ .char ' ' :: (more ++ rest))
        [.fixed kind] kind.endsOperand
        (.char ' ' :: (more ++ rest)) :=
    Scans.mark hKind
  rw [hEnds] at hMark
  have hSecond :=
    hMore false rest (fun hTrue => nomatch hTrue) hRest
  have hFirst :=
    hText ended (kind.written ++ .char ' ' :: (more ++ rest))
      (fun hTrue => startsSigned_of_append (hEnded hTrue))
      (apart_mark hKind _)
  simp only [List.append_assoc, List.cons_append]
  exact hFirst.trans (hMark.trans (Scans.space.trans hSecond))

/- Two texts with a sign between blanks between them. -/
theorem spaced
    (hKind : kind ∈ Scans.spacedSigns)
    (hText : Spells text symbols)
    (hMore : Spells more others) :
    Spells
      (text ++ .char ' ' :: (kind.written ++ .char ' ' :: more))
      (symbols ++ .fixed kind :: others) := by
  intro ended rest hEnded hRest
  have hSecond :=
    hMore false rest (fun hTrue => nomatch hTrue) hRest
  have hSign :
      Scans true
        (.char ' ' ::
          (kind.written ++ .char ' ' :: (more ++ rest)))
        [.fixed kind] false (more ++ rest) :=
    Scans.spaced hKind
  have hApart :
      Text.Apart
        (.char ' ' ::
          (kind.written ++ .char ' ' :: (more ++ rest))) := by
    intro c hMem
    cases hMem
    decide
  have hFirst :=
    hText ended _
      (fun hTrue => startsSigned_of_append (hEnded hTrue)) hApart
  simp only [List.append_assoc, List.cons_append]
  exact hFirst.trans (hSign.trans hSecond)

/- A reserved word and a blank before a text. -/
theorem reserved_space
    (hKind : kind ∈ TokenKind.words.map Prod.snd)
    (hEnds : kind.endsOperand = false)
    (hText : Spells text symbols) :
    Spells (kind.written ++ .char ' ' :: text)
      (.fixed kind :: symbols) := by
  refine of_scans fun ended rest hRest => ?_
  have hApart : Text.Apart (.char ' ' :: (text ++ rest)) := by
    intro c hMem
    cases hMem
    decide
  have hWord :
      Scans ended (kind.written ++ .char ' ' :: (text ++ rest))
        [.fixed kind] kind.endsOperand
        (.char ' ' :: (text ++ rest)) :=
    Scans.reserved hKind hApart
  rw [hEnds] at hWord
  have hAfter := hText false rest (fun hTrue => nomatch hTrue) hRest
  rw [List.append_assoc, List.cons_append]
  exact hWord.trans (Scans.space.trans hAfter)

/- Something is written where a token is spelled. -/
theorem ne_nil
    {first : Symbol}
    (hText : Spells text (first :: symbols)) :
    text ≠ [] := by
  rintro rfl
  have hScans :=
    hText false [] (fun hTrue => nomatch hTrue) fun c hMem => nomatch hMem
  cases hScans

/- What begins an operand begins with neither of two signs. -/
theorem head_ne
    {first : Symbol}
    (hText : Spells text (first :: symbols))
    (hFirst : first.kind.startsOperand = true) :
    ∀ c ∈ text.head?, c ≠ '=' ∧ c ≠ '>' := by
  intro c hMem
  cases text with
  | nil => cases hMem
  | cons head tail =>
      cases hMem
      have hScans :=
        hText false [] (fun hTrue => nomatch hTrue)
          fun c hMem => nomatch hMem
      rcases hScans.exists_next (List.cons_ne_nil _ _) with
        ⟨lexeme, more, hNext, hSymbols⟩
      have hNotSign :
          ∀ kind, TokenKind.shortSigns.lookup [c] = some kind →
            kind.startsOperand = false →
            Lexeme.sign c (tail.append []) ≠ .ok lexeme := by
        intro kind hShort hKind hSign
        rcases Lexeme.exists_kind_of_sign hShort hKind hSign with
          ⟨found, hFound, hLexeme⟩
        rw [Lexeme.symbols, hLexeme] at hSymbols
        have hSame := (List.cons.inj hSymbols).1
        rw [hSame, hFound] at hFirst
        cases hFirst
      constructor
      · rintro rfl
        exact hNotSign .assign rfl rfl hNext
      · rintro rfl
        exact hNotSign .greater rfl rfl hNext

end Spells

theorem spells_name
    {text : Text}
    (hName : Format.isName text = true) :
    Spells text [.name text] := by
  cases text with
  | nil => cases hName
  | cons c more =>
      simp only [Format.isName, Bool.and_eq_true,
        Option.isNone_iff_eq_none] at hName
      rcases hName with ⟨⟨hLetter, hMore⟩, hLookup⟩
      refine .of_scans fun ended rest hRest => ?_
      have hWord : Scans ended (c :: more ++ rest) _ _ rest :=
        Scans.word hLetter hMore hRest
      rw [hLookup] at hWord
      exact hWord

/- Reserved words that are operands. -/
theorem spells_reserved
    {kind : TokenKind}
    (hKind : kind ∈ [.trueWord, .falseWord, .nullWord]) :
    Spells (kind.written) [.fixed kind] := by
  refine .of_scans fun ended rest hRest => ?_
  have hReserved : kind ∈ TokenKind.words.map Prod.snd := by
    revert kind
    decide
  have hEnds : kind.endsOperand = true := by
    revert kind
    decide
  have hScans :
      Scans ended (kind.written ++ rest)
        [.fixed kind] kind.endsOperand rest :=
    Scans.reserved hReserved hRest
  rw [hEnds] at hScans
  exact hScans

------------------------------------------------------------
-- Numbers
------------------------------------------------------------

namespace Numeral

/- What stands after the sign of a numeral begins like a number. -/
theorem exists_unsigned
    (numeral : Numeral) :
    ∃ (c : CodePoint) (more : Text),
      numeral.whole ++ (numeral.fraction ++ numeral.exponent) =
        c :: more ∧
        (c.isAsciiDigit = true ∨ c = '.') ∧
        ∀ rest, Lexeme.unsignedAhead (c :: more ++ rest) = true := by
  cases hWhole : numeral.whole with
  | cons c digits =>
      have hDigit : c.isAsciiDigit = true :=
        numeral.whole_form c (by simp [hWhole])
      refine ⟨c, _, rfl, .inl hDigit, fun rest => ?_⟩
      simp [Lexeme.unsignedAhead,
        CodePoint.isDigit_of_isAsciiDigit hDigit]
  | nil =>
      rcases numeral.fraction_form with
        hNone | ⟨digits, hSome, hDigits, hFraction⟩
      · exact absurd ⟨hWhole, hNone⟩ numeral.not_empty
      · rw [hFraction]
        refine ⟨.char '.', _, rfl, .inr rfl, fun rest => ?_⟩
        cases digits with
        | nil => exact absurd rfl hSome
        | cons d digits =>
            have hDigit : d.isAsciiDigit = true :=
              hDigits d (List.mem_cons_self ..)
            simp [Lexeme.unsignedAhead, Lexeme.digitAhead,
              CodePoint.isDigit_of_isAsciiDigit hDigit]

/- A numeral begins a number where its sign can be one. -/
theorem next_text
    {numeral : Numeral}
    {value : Value}
    {ended : Bool}
    {c : CodePoint}
    {more rest : Text}
    (hText : numeral.text = c :: more)
    (hFirst : c.isAsciiDigit = true ∨ c = '.' ∨ c = '-')
    (hNumber : Lexeme.numberAhead ended c (more ++ rest) = true)
    (hValue : Lexeme.numberValue numeral.text = .ok value)
    (hRest : rest.Apart) :
    Lexeme.next ended c (more ++ rest) =
      .ok ⟨c :: more, some .number, some value⟩ := by
  have hPart := numeral.numberPart?_append hRest
  rw [hText, List.cons_append] at hPart
  rw [hText] at hValue
  have hPlain :
      c.isBlank = false ∧ c ≠ '#' ∧ c ≠ '"' ∧ c ≠ '\'' := by
    rcases hFirst with hDigit | rfl | rfl
    · refine
        ⟨CodePoint.isBlank_of_isAsciiDigit hDigit, ?_, ?_, ?_⟩
      all_goals
        rintro rfl
        cases hDigit
    · decide
    · decide
  simp only [Lexeme.next, hPlain, hNumber, if_true, if_false,
    Bool.false_eq_true, Lexeme.number, hPart, hValue]
  rfl

end Numeral

/- A numeral without a plus sign spells its number. -/
theorem spells_numeral
    {numeral : Numeral}
    {value : Value}
    (hSign : numeral.sign = [] ∨ numeral.sign = "-")
    (hValue : Lexeme.numberValue numeral.text = .ok value) :
    Spells numeral.text
      [⟨.number, numeral.text, some value⟩] := by
  intro ended rest hEnded hRest
  rcases numeral.exists_unsigned with
    ⟨c, more, hParts, hFirst, hAhead⟩
  have hText :
      numeral.text = numeral.sign ++ (c :: more) := by
    rw [← hParts]
    simp [Numeral.text]
  rcases hSign with hNone | hMinus
  · rw [hNone, List.nil_append] at hText
    have hNumber :
        Lexeme.numberAhead ended c (more ++ rest) = true := by
      have hUnsigned := hAhead rest
      rw [List.cons_append] at hUnsigned
      rw [Lexeme.numberAhead, hUnsigned, Bool.true_or]
    have hNext :=
      Numeral.next_text hText
        (hFirst.elim .inl fun hPoint => .inr (.inl hPoint))
        hNumber hValue hRest
    rw [hText]
    exact Scans.of_next hNext
  · rw [hMinus] at hText
    have hEnded : ended = false := by
      cases ended with
      | false => rfl
      | true =>
          have hSigned := hEnded rfl
          rw [hText] at hSigned
          rcases hFirst with hDigit | rfl
          · simp [Text.ofString, Format.startsSigned, hDigit]
              at hSigned
          · simp [Text.ofString, Format.startsSigned] at hSigned
    have hNumber :
        Lexeme.numberAhead ended '-' (c :: more ++ rest) = true := by
      rw [Lexeme.numberAhead, hAhead, hEnded]
      rfl
    have hNext :=
      Numeral.next_text hText (.inr (.inr rfl)) hNumber hValue
        hRest
    rw [hText]
    exact Scans.of_next hNext

------------------------------------------------------------
-- Strings
------------------------------------------------------------

/- A text in quotes spells a string. -/
theorem spells_quote (text : Text) :
    Spells (Json.quote text)
      [⟨.string, Json.quote text, some (.text text)⟩] := by
  refine .of_scans fun ended rest _ => ?_
  have hNext :
      Lexeme.next ended '"'
          ((Json.body text ++ [.char '"']) ++ rest) =
        .ok ⟨.char '"' :: (Json.body text ++ [.char '"']),
          some .string, some (.text text)⟩ := by
    have hFirst :
        Lexeme.next ended '"'
            ((Json.body text ++ [.char '"']) ++ rest) =
          Lexeme.doubleQuoted
            ((Json.body text ++ [.char '"']) ++ rest) := rfl
    rw [hFirst, List.append_assoc, List.singleton_append,
      Lexeme.doubleQuoted, Lexeme.doubleQuoted?_body]
  rw [Json.quote_eq]
  exact Scans.of_next hNext

/- A text without single quotes spells a string between them. -/
theorem spells_singleQuoted
    {text : Text}
    (hQuote : CodePoint.char '\'' ∉ text) :
    Spells (.char '\'' :: (text ++ [.char '\'']))
      [⟨.string, .char '\'' :: (text ++ [.char '\'']),
        some (.text text)⟩] := by
  refine .of_scans fun ended rest _ => ?_
  have hNext :
      Lexeme.next ended '\'' ((text ++ [.char '\'']) ++ rest) =
        .ok ⟨.char '\'' :: (text ++ [.char '\'']),
          some .string, some (.text text)⟩ := by
    have hFirst :
        Lexeme.next ended '\'' ((text ++ [.char '\'']) ++ rest) =
          Lexeme.singleQuoted
            ((text ++ [.char '\'']) ++ rest) := rfl
    rw [hFirst, List.append_assoc, List.singleton_append,
      Lexeme.singleQuoted_of_not_mem hQuote]
    rfl
  exact Scans.of_next hNext

end ExperimentScript
