import ExperimentScript.Highlight
import ExperimentScript.Proofs.Lexer.Front

/-
  What the rules of painting find at the front of a text.

  Outside strings there is one theorem for each class of
  lexemes: where a lexeme can be read, the first rule that
  fits finds a piece of the same extent. Only a number with a
  sign is found in two pieces. Inside strings a piece is an
  escape, a run of code points that stand for themselves, or
  the closing quote.

  Main declarations:
    * `ExperimentScript.Highlight.outside?_blank`
    * `ExperimentScript.Highlight.outside?_number`
    * `ExperimentScript.Highlight.outside?_name`
    * `ExperimentScript.Highlight.outside?_longSign`
    * `ExperimentScript.Highlight.outside?_shortSign`
    * `ExperimentScript.Highlight.escapePart_cases`
-/

namespace ExperimentScript

namespace Highlight

variable {before : Option CodePoint}
variable {c : CodePoint}
variable {rest : Text}

------------------------------------------------------------
-- Rules That Find Nothing
------------------------------------------------------------

@[simp] theorem piece?_nil (paint : Paint) (mode : Mode) :
    piece? paint mode [] = none := rfl

@[simp] theorem piece?_cons
    (paint : Paint)
    (mode : Mode)
    (c : CodePoint)
    (text : Text) :
    piece? paint mode (c :: text) =
      some ⟨paint, c :: text, mode⟩ := rfl

theorem blankPart_of_not_isBlank
    (hBlank : c.isBlank = false) :
    blankPart (c :: rest) = [] := by
  simp [blankPart, hBlank]

theorem commentPart_of_ne (hMark : c ≠ '#') :
    commentPart (c :: rest) = [] := by
  unfold commentPart
  split
  · rename_i hText
    cases hText
    exact absurd rfl hMark
  · rfl

theorem singleQuotedPart_of_ne (hMark : c ≠ '\'') :
    singleQuotedPart (c :: rest) = [] := by
  unfold singleQuotedPart
  split
  · rename_i hText
    cases hText
    exact absurd rfl hMark
  · rfl

theorem oneOf_of_not_contains
    {marks : Text}
    (hMark : marks.contains c = false) :
    oneOf marks (c :: rest) = [] := by
  simp only [oneOf, hMark, if_false, Bool.false_eq_true]

theorem oneOf_of_contains
    {marks : Text}
    (hMark : marks.contains c = true) :
    oneOf marks (c :: rest) = [c] := by
  simp only [oneOf, hMark, if_true]

/- No number begins where there is neither a digit nor a point. -/
theorem numberParts_of_not_isAsciiDigit
    (hDigit : c.isAsciiDigit = false)
    (hPoint : c ≠ '.')
    (rest : Text) :
    pointedPart (c :: rest) = [] ∧
      exponentialPart (c :: rest) = [] ∧
        digitsPart (c :: rest) = [] := by
  have hWhole :
      (c :: rest).takeWhile CodePoint.isAsciiDigit = [] := by
    simp [hDigit]
  have hFraction : Lexeme.fractionPart (c :: rest) = [] := by
    unfold Lexeme.fractionPart
    split
    · rename_i hText
      cases hText
      exact absurd rfl hPoint
    · rfl
  simp [pointedPart, exponentialPart, digitsPart, hWhole,
    hFraction]

theorem namePart_of_not_isAsciiLetter
    (hLetter : c.isAsciiLetter = false) :
    namePart (c :: rest) = [] := by
  simp [namePart, hLetter]

theorem namePartBefore_of_not_isAsciiLetter
    (hLetter : c.isAsciiLetter = false)
    (sign : CodePoint) :
    namePartBefore sign (c :: rest) = [] := by
  simp only [namePartBefore,
    namePart_of_not_isAsciiLetter hLetter, ite_self]

------------------------------------------------------------
-- Words
------------------------------------------------------------

/- A word that is found stands at the front and ends there. -/
theorem wordPart_cases
    (words : List Text)
    (before : Option CodePoint)
    (text : Text) :
    wordPart words before text = [] ∨
      ∃ word ∈ words, ∃ after,
        wordPart words before text = word ∧
          text = word ++ after ∧
          Text.atWordEnd after = true := by
  unfold wordPart
  dsimp only
  cases hFound : words.find? _ with
  | none => exact .inl rfl
  | some word =>
      have hFits := List.find?_some hFound
      simp only [Bool.and_eq_true, List.isPrefixOf_iff_prefix]
        at hFits
      rcases hFits with ⟨⟨_, after, rfl⟩, hEnd⟩
      rw [List.drop_left] at hEnd
      exact .inr
        ⟨word, List.mem_of_find?_eq_some hFound, after, rfl, rfl,
          hEnd⟩

/- What continues a name is a word character. -/
theorem isWord_of_continuesName
    (hName : c.continuesName = true) :
    c.isWord = true := by
  have hRange :
      ∀ range ∈ CodePoint.wordRanges,
        range.1 ≤ c.toNat → c.toNat ≤ range.2 →
          c.isWord = true := by
    intro range hMem hFirst hLast
    exact List.any_eq_true.mpr
      ⟨range, hMem, decide_eq_true ⟨hFirst, hLast⟩⟩
  simp only [CodePoint.continuesName, Bool.or_eq_true,
    beq_iff_eq] at hName
  rcases hName with (hLetter | hDigit) | rfl
  · rcases CodePoint.cases_of_isAsciiLetter hLetter with
      ⟨hFirst, hLast⟩ | ⟨hFirst, hLast⟩
    · exact hRange (0x41, 0x5A) (.tail _ (.head _)) hFirst hLast
    · exact hRange (0x61, 0x7A)
        (.tail _ (.tail _ (.tail _ (.head _)))) hFirst hLast
  · rcases CodePoint.toNat_of_isAsciiDigit hDigit with
      ⟨hFirst, hLast⟩
    exact hRange (0x30, 0x39) (.head _) hFirst hLast
  · exact hRange (0x5F, 0x5F)
      (.tail _ (.tail _ (.head _))) (by decide) (by decide)

/- A word of letters that ends where it does is the whole name. -/
theorem wordPart_eq_or
    {words : List Text}
    (hWords :
      ∀ word ∈ words, ∀ c ∈ word, c.isAsciiLetter = true)
    (before : Option CodePoint)
    (text : Text) :
    wordPart words before text = namePart text ∨
      wordPart words before text = [] := by
  rcases wordPart_cases words before text with
    hNone | ⟨word, hMem, after, hFound, rfl, hEnd⟩
  · exact .inr hNone
  · rw [hFound]
    cases word with
    | nil => exact .inr rfl
    | cons c more =>
        refine .inl ?_
        have hLetters := hWords _ hMem
        have hAll : ∀ d ∈ more, d.continuesName = true := by
          intro d hIn
          simp [CodePoint.continuesName,
            hLetters d (List.mem_cons_of_mem _ hIn)]
        have hAfter :
            after.takeWhile CodePoint.continuesName = [] := by
          cases after with
          | nil => rfl
          | cons d after =>
              cases hName : d.continuesName with
              | false => simp [hName]
              | true =>
                  rw [Text.atWordEnd, isWord_of_continuesName hName]
                    at hEnd
                  cases hEnd
        simp only [List.cons_append, namePart,
          hLetters c (List.mem_cons_self ..), if_true,
          List.takeWhile_append_of_pos hAll, hAfter,
          List.append_nil]

theorem wordPart_of_not_isAsciiLetter
    {words : List Text}
    (hWords :
      ∀ word ∈ words, ∀ c ∈ word, c.isAsciiLetter = true)
    (hLetter : c.isAsciiLetter = false) :
    wordPart words before (c :: rest) = [] := by
  rcases wordPart_eq_or hWords before (c :: rest) with
    hName | hNone
  · rw [hName, namePart_of_not_isAsciiLetter hLetter]
  · exact hNone

------------------------------------------------------------
-- Signs
------------------------------------------------------------

/- A sign of two code points is found where the text begins with one. -/
theorem signPart_longSigns (c : CodePoint) (rest : Text) :
    signPart longSigns (c :: rest) =
      if c :: rest.take 1 ∈ longSigns then c :: rest.take 1
      else [] := by
  have hLength : ∀ sign ∈ longSigns, sign.length = 2 := by decide
  have hFits :
      ∀ sign ∈ longSigns,
        sign.isPrefixOf (c :: rest) = true ↔
          sign = c :: rest.take 1 := by
    intro sign hMem
    rw [List.isPrefixOf_iff_prefix, List.prefix_iff_eq_take,
      hLength sign hMem]
    rfl
  unfold signPart
  cases hFound : longSigns.find? (·.isPrefixOf (c :: rest)) with
  | none =>
      rw [List.find?_eq_none] at hFound
      rw [if_neg]
      · rfl
      · intro hMem
        exact hFound _ hMem ((hFits _ hMem).mpr rfl)
  | some sign =>
      have hMem := List.mem_of_find?_eq_some hFound
      have hPrefix : sign.isPrefixOf (c :: rest) = true :=
        List.find?_some
          (p := fun sign : Text => sign.isPrefixOf (c :: rest))
          hFound
      have hSame := (hFits sign hMem).mp hPrefix
      rw [if_pos (hSame ▸ hMem), Option.getD_some, hSame]

/- Both readers know the same signs of two code points. -/
theorem mem_longSigns_iff (text : Text) :
    text ∈ longSigns ↔
      (TokenKind.longSigns.lookup text).isSome = true := by
  have hKnown :
      ∀ sign ∈ longSigns,
        (TokenKind.longSigns.lookup sign).isSome = true := by
    decide
  have hListed :
      ∀ entry ∈ TokenKind.longSigns, entry.1 ∈ longSigns := by
    decide
  constructor
  · exact hKnown text
  · intro hSome
    rcases Option.isSome_iff_exists.mp hSome with ⟨kind, hLookup⟩
    exact hListed _ (Lexeme.mem_of_lookup hLookup)

/-
  A code point that is found only as a sign: no other piece
  begins with it.
-/
def isMark (c : CodePoint) : Bool :=
  !c.isBlank && c != '#' && c != '"' && c != '\'' &&
    !c.isAsciiDigit && c != '.' && !c.isAsciiLetter

/- Where a sign stands only the rules for signs can fit. -/
theorem outside?_of_isMark (hMark : isMark c = true) :
    outside? before (c :: rest) =
      (piece? .marker .outside (oneOf "@" (c :: rest))
        <|> piece? .operator .outside
          (signPart longSigns (c :: rest))
        <|> piece? .operator .outside
          (oneOf "+-*/%<>!=" (c :: rest))
        <|> piece? .punctuation .outside
          (oneOf "(),;[]\x7b\x7d:" (c :: rest))) := by
  simp only [isMark, Bool.and_eq_true, Bool.not_eq_true',
    bne_iff_ne] at hMark
  rcases hMark with
    ⟨⟨⟨⟨⟨⟨hBlank, hComment⟩, hDouble⟩, hSingle⟩, hDigit⟩, hPoint⟩,
      hLetter⟩
  have hQuote : ("\"" : Text).contains c = false := by
    simpa [Text.ofString] using hDouble
  rcases numberParts_of_not_isAsciiDigit hDigit hPoint rest with
    ⟨hPointed, hExponential, hDigits⟩
  have hKeywords :
      wordPart keywords before (c :: rest) = [] :=
    wordPart_of_not_isAsciiLetter (by decide) hLetter
  have hConstants :
      wordPart constants before (c :: rest) = [] :=
    wordPart_of_not_isAsciiLetter (by decide) hLetter
  simp only [outside?, blankPart_of_not_isBlank hBlank,
    commentPart_of_ne hComment, oneOf_of_not_contains hQuote,
    singleQuotedPart_of_ne hSingle, hPointed, hExponential,
    hDigits, hKeywords, hConstants,
    namePartBefore_of_not_isAsciiLetter hLetter,
    namePart_of_not_isAsciiLetter hLetter, piece?_nil,
    Option.orElse_eq_orElse, Option.orElse_none]

theorem outside?_longSign
    {kind : TokenKind}
    (hLong :
      TokenKind.longSigns.lookup (c :: rest.take 1) = some kind) :
    outside? before (c :: rest) =
      some ⟨.operator, c :: rest.take 1, .outside⟩ := by
  have hTable :
      ∀ entry ∈ TokenKind.longSigns, ∀ c ∈ entry.1.head?,
        isMark c = true ∧ ("@" : Text).contains c = false := by
    decide
  rcases hTable _ (Lexeme.mem_of_lookup hLong) c rfl with
    ⟨hMark, hMarker⟩
  have hMem : c :: rest.take 1 ∈ longSigns := by
    rw [mem_longSigns_iff, hLong]
    rfl
  rw [outside?_of_isMark hMark, oneOf_of_not_contains hMarker,
    signPart_longSigns, if_pos hMem]
  rfl

theorem outside?_shortSign
    {kind : TokenKind}
    (hLong :
      TokenKind.longSigns.lookup (c :: rest.take 1) = none)
    (hShort : TokenKind.shortSigns.lookup [c] = some kind) :
    ∃ paint ∈ [Paint.marker, .operator, .punctuation],
      outside? before (c :: rest) =
        some ⟨paint, [c], .outside⟩ := by
  have hTable :
      ∀ entry ∈ TokenKind.shortSigns, ∀ c ∈ entry.1,
        isMark c = true ∧
          (("@" : Text).contains c = true ∨
            ("+-*/%<>!=" : Text).contains c = true ∨
              ("(),;[]\x7b\x7d:" : Text).contains c = true) := by
    decide
  have hOther : c :: rest.take 1 ∉ longSigns := by
    rw [mem_longSigns_iff, hLong]
    exact nofun
  rcases hTable _ (Lexeme.mem_of_lookup hShort) c
      (List.mem_singleton_self c) with
    ⟨hMark, hListed⟩
  rw [outside?_of_isMark hMark, signPart_longSigns, if_neg hOther]
  cases hMarker : ("@" : Text).contains c with
  | true =>
      rw [oneOf_of_contains hMarker]
      exact ⟨.marker, by decide, rfl⟩
  | false =>
      rw [oneOf_of_not_contains hMarker]
      cases hOperator : ("+-*/%<>!=" : Text).contains c with
      | true =>
          rw [oneOf_of_contains hOperator]
          exact ⟨.operator, by decide, rfl⟩
      | false =>
          rw [oneOf_of_not_contains hOperator]
          rw [hMarker, hOperator] at hListed
          simp only [Bool.false_eq_true, false_or] at hListed
          rw [oneOf_of_contains hListed]
          exact ⟨.punctuation, by decide, rfl⟩

------------------------------------------------------------
-- Blank Space, Comments And Quotes
------------------------------------------------------------

theorem outside?_blank (hBlank : c.isBlank = true) :
    outside? before (c :: rest) =
      some ⟨.blank, c :: rest.takeWhile CodePoint.isBlank,
        .outside⟩ := by
  have hPart :
      blankPart (c :: rest) =
        c :: rest.takeWhile CodePoint.isBlank := by
    simp [blankPart, hBlank]
  simp only [outside?, hPart, piece?_cons, Option.orElse_eq_orElse,
    Option.orElse_some]

theorem outside?_comment :
    outside? before (.char '#' :: rest) =
      some ⟨.comment,
        .char '#' :: rest.takeWhile (· ≠ .char '\n'),
        .outside⟩ := rfl

theorem outside?_doubleQuote :
    outside? before (.char '"' :: rest) =
      some ⟨.doubleQuoted, [.char '"'], .inside⟩ := rfl

theorem outside?_singleQuoted
    {body after : Text}
    (hCut : rest.cut? (.char '\'') = some (body, after)) :
    outside? before (.char '\'' :: rest) =
      some ⟨.singleQuoted,
        .char '\'' :: body ++ [.char '\''], .outside⟩ := by
  have hPiece :
      piece? .singleQuoted .outside
          (singleQuotedPart (.char '\'' :: rest)) =
        some ⟨.singleQuoted,
          .char '\'' :: body ++ [.char '\''], .outside⟩ := by
    simp only [singleQuotedPart, hCut]
    rfl
  simp only [outside?, hPiece, Option.orElse_eq_orElse,
    Option.orElse_some]
  rfl

------------------------------------------------------------
-- Numbers
------------------------------------------------------------

/- The longest number without a sign is found by one of three rules. -/
theorem numberPart?_unsigned
    {text written : Text}
    (hSign : Lexeme.signPart text = [])
    (hWritten : Lexeme.numberPart? text = some written) :
    pointedPart text = written ∨
      (pointedPart text = [] ∧ exponentialPart text = written) ∨
        (pointedPart text = [] ∧ exponentialPart text = [] ∧
          digitsPart text = written) := by
  simp only [Lexeme.numberPart?, hSign, List.length_nil,
    List.drop_zero, List.nil_append] at hWritten
  split at hWritten
  · cases hWritten
  · rename_i hPresent
    cases hWritten
    unfold pointedPart exponentialPart digitsPart
    dsimp only
    generalize text.takeWhile CodePoint.isAsciiDigit = whole
      at hPresent ⊢
    cases hFraction : Lexeme.fractionPart (text.drop whole.length) with
    | cons point digits => exact .inl rfl
    | nil =>
        rw [hFraction] at hPresent
        cases whole with
        | nil => exact absurd rfl hPresent
        | cons c digits =>
            cases hExponent :
                Lexeme.exponentPart
                  (text.drop (c :: digits).length) with
            | nil =>
                refine .inr (.inr ⟨rfl, rfl, ?_⟩)
                simpa using hExponent
            | cons mark exponent =>
                refine .inr (.inl ⟨rfl, ?_⟩)
                simpa using hExponent.symm

/- After its sign a number has no further one. -/
theorem numberPart?_signed
    {text written : Text}
    (hSign : c = '+' ∨ c = '-')
    (hWritten : Lexeme.numberPart? (c :: text) = some written) :
    ∃ unsigned,
      written = c :: unsigned ∧
        Lexeme.signPart text = [] ∧
          Lexeme.numberPart? text = some unsigned := by
  have hFirst : Lexeme.signPart (c :: text) = [c] := by
    rcases hSign with rfl | rfl
    · rfl
    · rfl
  simp only [Lexeme.numberPart?, hFirst, List.length_singleton,
    List.drop_succ_cons, List.drop_zero] at hWritten
  have hNone : Lexeme.signPart text = [] := by
    unfold Lexeme.signPart
    split
    · cases hWritten
    · cases hWritten
    · rfl
  split at hWritten
  · cases hWritten
  · rename_i hPresent
    cases hWritten
    refine ⟨_, rfl, hNone, ?_⟩
    simp only [Lexeme.numberPart?, hNone, List.length_nil,
      List.drop_zero, List.nil_append]
    rw [if_neg hPresent]
    rfl

/- A number without a sign begins with a digit or a point. -/
theorem isAsciiDigit_or_of_numberPart?
    {written : Text}
    (hSign : Lexeme.signPart (c :: rest) = [])
    (hWritten : Lexeme.numberPart? (c :: rest) = some written) :
    c.isAsciiDigit = true ∨ c = '.' := by
  cases hDigit : c.isAsciiDigit with
  | true => exact .inl rfl
  | false =>
      refine .inr (Decidable.byContradiction fun hPoint => ?_)
      rcases numberParts_of_not_isAsciiDigit hDigit hPoint rest with
        ⟨hPointed, hExponential, hDigits⟩
      have hNone : written = [] := by
        rcases numberPart?_unsigned hSign hWritten with
          hPart | ⟨_, hPart⟩ | ⟨_, _, hPart⟩
        · rw [← hPart, hPointed]
        · rw [← hPart, hExponential]
        · rw [← hPart, hDigits]
      exact Lexeme.numberPart?_ne_nil hWritten hNone

theorem outside?_number
    {written : Text}
    (hSign : Lexeme.signPart (c :: rest) = [])
    (hWritten : Lexeme.numberPart? (c :: rest) = some written) :
    ∃ paint ∈ [Paint.float, .integer],
      outside? before (c :: rest) =
        some ⟨paint, written, .outside⟩ := by
  have hPlain :
      c.isBlank = false ∧ c ≠ '#' ∧
        ("\"" : Text).contains c = false ∧ c ≠ '\'' := by
    rcases isAsciiDigit_or_of_numberPart? hSign hWritten with
      hDigit | rfl
    · have hOther :
          ∀ mark : CodePoint, mark.isAsciiDigit = false →
            c ≠ mark := by
        rintro mark hMark rfl
        rw [hDigit] at hMark
        cases hMark
      refine
        ⟨CodePoint.isBlank_of_isAsciiDigit hDigit,
          hOther _ (by decide), ?_, hOther _ (by decide)⟩
      simpa [Text.ofString] using hOther '"' (by decide)
    · decide
  rcases hPlain with ⟨hBlank, hComment, hDouble, hSingle⟩
  have hPiece :
      ∀ paint, piece? paint .outside written =
        some ⟨paint, written, .outside⟩ := by
    intro paint
    cases written with
    | nil => exact absurd rfl (Lexeme.numberPart?_ne_nil hWritten)
    | cons first more => rfl
  simp only [outside?, blankPart_of_not_isBlank hBlank,
    commentPart_of_ne hComment, oneOf_of_not_contains hDouble,
    singleQuotedPart_of_ne hSingle, piece?_nil,
    Option.orElse_eq_orElse, Option.orElse_none]
  rcases numberPart?_unsigned hSign hWritten with
    hPart | ⟨hPointed, hPart⟩ | ⟨hPointed, hExponential, hPart⟩
  · rw [hPart, hPiece]
    exact ⟨.float, by decide, rfl⟩
  · rw [hPointed, hPart, hPiece]
    exact ⟨.float, by decide, rfl⟩
  · rw [hPointed, hExponential, hPart, hPiece]
    exact ⟨.integer, by decide, rfl⟩

/- The sign of a number is found on its own. -/
theorem outside?_signed
    (hSign : c = '+' ∨ c = '-') :
    outside? before (c :: rest) =
      some ⟨.operator, [c], .outside⟩ := by
  have hHeads :
      ∀ sign ∈ longSigns, ∀ c ∈ sign.head?, c ≠ '+' ∧ c ≠ '-' := by
    decide
  have hOther : c :: rest.take 1 ∉ longSigns := by
    intro hMem
    rcases hHeads _ hMem c rfl with ⟨hPlus, hMinus⟩
    exact hSign.elim hPlus hMinus
  rcases hSign with rfl | rfl
  · rw [outside?_of_isMark rfl, signPart_longSigns, if_neg hOther]
    rfl
  · rw [outside?_of_isMark rfl, signPart_longSigns, if_neg hOther]
    rfl

------------------------------------------------------------
-- Names
------------------------------------------------------------

theorem not_contains_of_isAsciiLetter
    {marks : Text}
    (hMarks : ∀ mark ∈ marks, mark.isAsciiLetter = false)
    (hLetter : c.isAsciiLetter = true) :
    marks.contains c = false := by
  rw [List.contains_eq_mem, decide_eq_false_iff_not]
  intro hMem
  rw [hMarks c hMem] at hLetter
  cases hLetter

theorem namePartBefore_eq_or
    (sign : CodePoint)
    (text : Text) :
    namePartBefore sign text = namePart text ∨
      namePartBefore sign text = [] := by
  unfold namePartBefore
  dsimp only
  split
  · exact .inl rfl
  · exact .inr rfl

/- A name is found as a whole, whichever rule finds it. -/
theorem outside?_name (hLetter : c.isAsciiLetter = true) :
    ∃ paint ∈
        [Paint.keyword, .constant, .function, .attribute, .variable],
      outside? before (c :: rest) =
        some ⟨paint, namePart (c :: rest), .outside⟩ := by
  have hDigit : c.isAsciiDigit = false := by
    cases hDigit : c.isAsciiDigit with
    | false => rfl
    | true =>
        have hOther := CodePoint.isDigit_of_isAsciiLetter hLetter
        rw [CodePoint.isDigit_of_isAsciiDigit hDigit] at hOther
        cases hOther
  have hMarks :
      ∀ mark : CodePoint, mark.isAsciiLetter = false → c ≠ mark :=
    fun _ => CodePoint.ne_of_isAsciiLetter hLetter
  have hQuote : ("\"" : Text).contains c = false :=
    not_contains_of_isAsciiLetter (by decide) hLetter
  have hMarker : ("@" : Text).contains c = false :=
    not_contains_of_isAsciiLetter (by decide) hLetter
  have hOperator : ("+-*/%<>!=" : Text).contains c = false :=
    not_contains_of_isAsciiLetter (by decide) hLetter
  have hHeads :
      ∀ sign ∈ longSigns, ∀ c ∈ sign.head?,
        c.isAsciiLetter = false := by
    decide
  have hSign : c :: rest.take 1 ∉ longSigns := by
    intro hMem
    rw [hHeads _ hMem c rfl] at hLetter
    cases hLetter
  have hKeywords :
      ∀ word ∈ keywords, ∀ c ∈ word, c.isAsciiLetter = true := by
    decide
  have hConstants :
      ∀ word ∈ constants, ∀ c ∈ word, c.isAsciiLetter = true := by
    decide
  rcases numberParts_of_not_isAsciiDigit hDigit
      (hMarks '.' (by decide)) rest with
    ⟨hPointed, hExponential, hDigits⟩
  have hPiece :
      ∀ paint, piece? paint .outside (namePart (c :: rest)) =
        some ⟨paint, namePart (c :: rest), .outside⟩ := by
    intro paint
    simp only [namePart, hLetter, if_true, piece?_cons]
  simp only [outside?, signPart_longSigns, if_neg hSign,
    blankPart_of_not_isBlank
      (CodePoint.isBlank_of_isAsciiLetter hLetter),
    commentPart_of_ne (hMarks '#' (by decide)),
    singleQuotedPart_of_ne (hMarks '\'' (by decide)),
    oneOf_of_not_contains hQuote, oneOf_of_not_contains hMarker,
    oneOf_of_not_contains hOperator, hPointed, hExponential,
    hDigits, piece?_nil, Option.orElse_eq_orElse,
    Option.orElse_none]
  rcases wordPart_eq_or hKeywords before (c :: rest) with
    hFound | hNone
  · rw [hFound, hPiece]
    exact ⟨.keyword, by decide, rfl⟩
  rw [hNone]
  rcases wordPart_eq_or hConstants before (c :: rest) with
    hFound | hNone
  · rw [hFound, hPiece]
    exact ⟨.constant, by decide, rfl⟩
  rw [hNone]
  rcases namePartBefore_eq_or '(' (c :: rest) with hFound | hNone
  · rw [hFound, hPiece]
    exact ⟨.function, by decide, rfl⟩
  rw [hNone]
  rcases namePartBefore_eq_or ':' (c :: rest) with hFound | hNone
  · rw [hFound, hPiece]
    exact ⟨.attribute, by decide, rfl⟩
  rw [hNone, hPiece]
  exact ⟨.variable, by decide, rfl⟩

------------------------------------------------------------
-- Inside Strings
------------------------------------------------------------

/-
  A stroke and what comes after it are an escape with four
  hexadecimal digits, a short escape, or no escape.
-/
theorem escapePart_cases (e : CodePoint) (rest : Text) :
    (∃ digits more : Text, digits.length = 4 ∧
        (∀ d ∈ digits, d.hexValue?.isSome = true) ∧
        e = 'u' ∧ rest = digits ++ more ∧
        escapePart (.char '\\' :: e :: rest) =
          .char '\\' :: e :: digits) ∨
      ((Lexeme.escape? e).isSome = true ∧
        escapePart (.char '\\' :: e :: rest) = [.char '\\', e]) ∨
      (Lexeme.escape? e = none ∧
        escapePart (.char '\\' :: e :: rest) = []) := by
  generalize hText : CodePoint.char '\\' :: e :: rest = text
  unfold escapePart
  split
  · rename_i h₁ h₂ h₃ h₄ more
    cases hText
    split
    · rename_i hHex
      rcases Option.isSome_iff_exists.mp hHex with ⟨c, hEscape⟩
      exact .inl
        ⟨[h₁, h₂, h₃, h₄], more, rfl,
          Lexeme.isSome_of_hexEscape? hEscape, rfl, rfl, rfl⟩
    · exact .inr (.inr ⟨rfl, rfl⟩)
  · cases hText
    split
    · rename_i hShort
      exact .inr (.inl ⟨hShort, rfl⟩)
    · rename_i hShort
      exact .inr (.inr ⟨Option.not_isSome_iff_eq_none.mp hShort, rfl⟩)
  · rename_i hOther
    exact absurd hText.symm (hOther e rest)

end Highlight

end ExperimentScript
