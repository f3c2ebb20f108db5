import ExperimentScript.Proofs.Highlight.Rules
import ExperimentScript.Proofs.Lexer.Layout

/-
  The pieces of a painted script keep to its tokens: each
  lies in one token or in one gap between tokens.

  `Crosses` says how painting comes from the front of a text
  to its end, whatever stands before. The texts of tokens are
  crossed class by class, a string piece by piece as its body
  is made. Gaps are crossed in runs of blank space and whole
  comments.

  Key definitions include:
    * `ExperimentScript.Highlight.FillsGap`
    * `ExperimentScript.Highlight.FitsToken`
    * `ExperimentScript.Highlight.BodyParts`
    * `ExperimentScript.Highlight.Follows`

  Main declarations:
    * `ExperimentScript.Highlight.parts_of_body`
    * `ExperimentScript.Highlight.crosses_body`
    * `ExperimentScript.Highlight.crosses_of_reads`
    * `ExperimentScript.Highlight.exists_fill`
    * `ExperimentScript.Highlight.pieces_follow_tokens`
-/

namespace ExperimentScript

namespace Highlight

------------------------------------------------------------
-- Pieces Of Gaps And Tokens
------------------------------------------------------------

/- The text that some pieces make up. -/
def spelled (pieces : List (Paint × Text)) : Text :=
  pieces.flatMap Prod.snd

/- The paints of strings. -/
def Paint.isString : Paint → Bool
  | .doubleQuoted | .singleQuoted | .escape => true
  | _ => false

/- The paints of words, numbers and signs. -/
def Paint.isPlain : Paint → Bool
  | .float | .integer | .keyword | .constant | .marker
  | .operator | .function | .attribute | .variable
  | .punctuation => true
  | _ => false

/-
  The pieces of a gap with a given rest after it: runs of
  blank space, and comments as a whole.
-/
inductive FillsGap (rest : Text) : List (Paint × Text) → Prop where
  | nil : FillsGap rest []
  | blank
      {text : Text}
      {pieces : List (Paint × Text)}
      (hBlank : ∀ c ∈ text, c.isBlank = true)
      (hMore : FillsGap rest pieces) :
      FillsGap rest ((.blank, text) :: pieces)
  | comment
      {body : Text}
      {pieces : List (Paint × Text)}
      (hBody : .char '\n' ∉ body)
      (hEnd : ∀ c ∈ (spelled pieces ++ rest).head?, c = '\n')
      (hMore : FillsGap rest pieces) :
      FillsGap rest ((.comment, .char '#' :: body) :: pieces)

/-
  Whether a piece may be part of a token: a string has pieces
  of strings and single code points in error, and no other
  token has any of these.
-/
def FitsToken
    (kind : TokenKind)
    (piece : Paint × Text) : Prop :=
  if kind = .string then
    piece.1.isString = true ∨
      (piece.1 = .error ∧ piece.2.length = 1)
  else
    piece.1.isPlain = true

/-
  Pieces follow the tokens and gaps of a layout: each gap and
  each token has its own pieces, one group after another.
-/
inductive Follows (lastGap : Text) :
    List (Text × Token) → List (Paint × Text) → Prop where
  | last
      {group : List (Paint × Text)}
      (hGap : spelled group = lastGap)
      (hFills : FillsGap [] group) :
      Follows lastGap [] group
  | entry
      {gap : Text}
      {token : Token}
      {entries : List (Text × Token)}
      {gapGroup group pieces : List (Paint × Text)}
      (hGap : spelled gapGroup = gap)
      (hFills :
        FillsGap
          (token.text ++ (Layout.spelled entries ++ lastGap))
          gapGroup)
      (hToken : spelled group = token.text)
      (hFits : ∀ piece ∈ group, FitsToken token.kind piece)
      (hMore : Follows lastGap entries pieces) :
      Follows lastGap ((gap, token) :: entries)
        (gapGroup ++ (group ++ pieces))

theorem spelled_append (pieces others : List (Paint × Text)) :
    spelled (pieces ++ others) = spelled pieces ++ spelled others :=
  List.flatMap_append

------------------------------------------------------------
-- Crossing A Text
------------------------------------------------------------

/- A piece that is found is the first one. -/
theorem piecesFrom_of_next
    {mode goOn : Mode}
    {before : Option CodePoint}
    {paint : Paint}
    {c : CodePoint}
    {more after : Text}
    (hNext :
      next mode before c (more ++ after) = ⟨paint, c :: more, goOn⟩) :
    piecesFrom mode before (c :: more ++ after) =
      (paint, c :: more) ::
        piecesFrom goOn (c :: more).getLast? after := by
  rw [List.cons_append, piecesFrom.eq_def]
  simp [hNext]

/-
  Painting comes from the front of a text to its end in good
  pieces, whatever code point stands before, and goes on in a
  given mode.
-/
def Crosses
    (good : Paint × Text → Prop)
    (mode : Mode)
    (text : Text)
    (goOn : Mode)
    (after : Text) : Prop :=
  ∀ before, ∃ group last,
    piecesFrom mode before (text ++ after) =
        group ++ piecesFrom goOn last after ∧
      spelled group = text ∧
      ∀ piece ∈ group, good piece

namespace Crosses

variable {good : Paint × Text → Prop}
variable {mode between goOn : Mode}
variable {text more after : Text}

/- A text that is one piece. -/
theorem of_next
    {c : CodePoint}
    (hNext :
      ∀ before, ∃ paint,
        next mode before c (more ++ after) =
            ⟨paint, c :: more, goOn⟩ ∧
          good (paint, c :: more)) :
    Crosses good mode (c :: more) goOn after := by
  intro before
  rcases hNext before with ⟨paint, hPiece, hGood⟩
  refine ⟨[(paint, c :: more)], _, piecesFrom_of_next hPiece, ?_, ?_⟩
  · simp [spelled]
  · simpa using hGood

/- A text that is found as a piece outside strings. -/
theorem of_outside?
    {c : CodePoint}
    (hFound :
      ∀ before, ∃ paint,
        outside? before (c :: (more ++ after)) =
            some ⟨paint, c :: more, goOn⟩ ∧
          good (paint, c :: more)) :
    Crosses good .outside (c :: more) goOn after := by
  refine of_next fun before => ?_
  rcases hFound before with ⟨paint, hPiece, hGood⟩
  refine ⟨paint, ?_, hGood⟩
  simp only [next, hPiece, Option.getD_some]

/- A text that is found as a piece inside a string. -/
theorem of_inside?
    {c : CodePoint}
    {paint : Paint}
    (hFound :
      inside? (c :: (more ++ after)) =
        some ⟨paint, c :: more, goOn⟩)
    (hGood : good (paint, c :: more)) :
    Crosses good .inside (c :: more) goOn after := by
  refine of_next fun before => ⟨paint, ?_, hGood⟩
  simp only [next, hFound, Option.getD_some]

theorem trans
    (hFirst : Crosses good mode text between (more ++ after))
    (hSecond : Crosses good between more goOn after) :
    Crosses good mode (text ++ more) goOn after := by
  intro before
  rcases hFirst before with ⟨group, middle, hGroup, hText, hGood⟩
  rcases hSecond middle with ⟨others, last, hOthers, hMore, hOther⟩
  refine ⟨group ++ others, last, ?_, ?_, ?_⟩
  · rw [List.append_assoc, hGroup, hOthers, List.append_assoc]
  · rw [spelled_append, hText, hMore]
  · exact List.forall_mem_append.mpr ⟨hGood, hOther⟩

end Crosses

------------------------------------------------------------
-- Strings
------------------------------------------------------------

/- Code points that stand for themselves come off the front of a body. -/
theorem exists_of_verbatim
    {written after front tail : Text}
    (hBody : Lexeme.StringBody written)
    (hFront : ∀ c ∈ front, c ≠ '"' ∧ c ≠ '\\')
    (hText : written ++ after = front ++ tail) :
    ∃ more, written = front ++ more ∧ Lexeme.StringBody more := by
  induction front generalizing written with
  | nil => exact ⟨written, rfl, hBody⟩
  | cons c front ih =>
      rcases List.forall_mem_cons.mp hFront with
        ⟨⟨hQuote, hStroke⟩, hOthers⟩
      cases hBody with
      | close =>
          exact absurd (List.cons.inj hText).1.symm hQuote
      | escape e hMore =>
          exact absurd (List.cons.inj hText).1.symm hStroke
      | verbatim _ _ hMore =>
          rcases List.cons.inj hText with ⟨rfl, hTail⟩
          rcases ih hMore hOthers hTail with ⟨more, rfl, hRest⟩
          exact ⟨more, rfl, hRest⟩

/- The longest run of these at the front of a body ends inside it. -/
theorem exists_of_verbatimPart
    {written : Text}
    (hBody : Lexeme.StringBody written)
    (after : Text) :
    ∃ more,
      written = verbatimPart (written ++ after) ++ more ∧
        Lexeme.StringBody more := by
  have hPlain :
      ∀ c ∈ verbatimPart (written ++ after), c ≠ '"' ∧ c ≠ '\\' := by
    intro c hMem
    have hInside := List.mem_takeWhile_imp hMem
    simpa using hInside
  exact exists_of_verbatim hBody hPlain
    List.takeWhile_append_dropWhile.symm

/- What is no escape after a stroke is neither a quote nor a stroke. -/
theorem ne_of_escape?_eq_none
    {e : CodePoint}
    (hEscape : Lexeme.escape? e = none) :
    e ≠ '"' ∧ e ≠ '\\' := by
  constructor
  · rintro rfl
    cases hEscape
  · rintro rfl
    cases hEscape

/- An escape that is found comes before all other rules. -/
theorem inside?_of_escape
    {c : CodePoint}
    {more text : Text}
    (hPart : escapePart text = c :: more) :
    inside? text = some ⟨.escape, c :: more, .inside⟩ := by
  rw [inside?, hPart]
  rfl

/- A stroke that begins no escape is in error. -/
theorem next_of_no_escape
    {rest : Text}
    (hPart : escapePart (.char '\\' :: rest) = [])
    (before : Option CodePoint) :
    next .inside before (.char '\\') rest =
      ⟨.error, [.char '\\'], .inside⟩ := by
  have hNone : inside? (.char '\\' :: rest) = none := by
    rw [inside?, hPart]
    rfl
  simp only [next, hNone, Option.getD_none]

/- A run of code points that stand for themselves is one piece. -/
theorem inside?_of_verbatim
    {c : CodePoint}
    {rest : Text}
    (hQuote : c ≠ '"')
    (hStroke : c ≠ '\\') :
    inside? (c :: rest) =
      some ⟨.doubleQuoted, c :: verbatimPart rest, .inside⟩ := by
  have hEscape : escapePart (c :: rest) = [] := by
    unfold escapePart
    split
    · rename_i hText
      exact absurd (List.cons.inj hText).1 hStroke
    · rename_i hText
      exact absurd (List.cons.inj hText).1 hStroke
    · rfl
  have hPart :
      verbatimPart (c :: rest) = c :: verbatimPart rest := by
    simp [verbatimPart, hQuote, hStroke]
  rw [inside?, hEscape, hPart]
  rfl

/-
  The rest of a string with a given text after it, cut into the
  parts it is painted in: escapes, strokes that begin none,
  runs of code points that stand for themselves, and the
  closing quote.
-/
inductive BodyParts (after : Text) : Text → Prop where
  | close : BodyParts after [.char '"']
  | longEscape
      {digits more : Text}
      (hLength : digits.length = 4)
      (hDigits : ∀ d ∈ digits, d.hexValue?.isSome = true)
      (hPart :
        escapePart
            (.char '\\' :: .char 'u' :: (digits ++ (more ++ after))) =
          .char '\\' :: .char 'u' :: digits)
      (hMore : BodyParts after more) :
      BodyParts after (.char '\\' :: .char 'u' :: (digits ++ more))
  | shortEscape
      {e : CodePoint}
      {more : Text}
      (hEscape : (Lexeme.escape? e).isSome = true)
      (hPart :
        escapePart (.char '\\' :: e :: (more ++ after)) =
          [.char '\\', e])
      (hMore : BodyParts after more) :
      BodyParts after (.char '\\' :: e :: more)
  | stray
      {e : CodePoint}
      {more : Text}
      (hEscape : Lexeme.escape? e = none)
      (hPart : escapePart (.char '\\' :: e :: (more ++ after)) = [])
      (hMore : BodyParts after (e :: more)) :
      BodyParts after (.char '\\' :: e :: more)
  | verbatim
      {c : CodePoint}
      {run more : Text}
      (hRun : ∀ d ∈ c :: run, d ≠ '"' ∧ d ≠ '\\')
      (hFound :
        inside? (c :: (run ++ (more ++ after))) =
          some ⟨.doubleQuoted, c :: run, .inside⟩)
      (hMore : BodyParts after more) :
      BodyParts after (c :: (run ++ more))

/- The rest of every string is painted in such parts. -/
theorem parts_of_body
    {written : Text}
    (hBody : Lexeme.StringBody written)
    (after : Text) :
    BodyParts after written := by
  cases hBody with
  | close => exact .close
  | @escape e written hMore =>
      rcases escapePart_cases e (written ++ after) with
        ⟨digits, tail, hLength, hDigits, rfl, hText, hPart⟩ |
          ⟨hEscape, hPart⟩ | ⟨hEscape, hPart⟩
      · rcases exists_of_verbatim hMore
            (fun d hMem => Lexeme.ne_of_isSome_hexValue? (hDigits d hMem))
            hText with
          ⟨more, hWritten, hRest⟩
        have hShorter : more.length ≤ written.length := by
          rw [hWritten, List.length_append]
          exact Nat.le_add_left _ _
        rw [hWritten, List.append_assoc] at hPart
        have hParts :=
          BodyParts.longEscape hLength hDigits hPart
            (parts_of_body hRest after)
        rw [← hWritten] at hParts
        exact hParts
      · exact .shortEscape hEscape hPart (parts_of_body hMore after)
      · -- Only the stroke is in error: what comes after it stands
        -- for itself.
        rcases ne_of_escape?_eq_none hEscape with ⟨hQuote, hStroke⟩
        exact .stray hEscape hPart
          (parts_of_body (.verbatim hQuote hStroke hMore) after)
  | @verbatim c written hQuote hStroke hMore =>
      rcases exists_of_verbatimPart hMore after with
        ⟨more, hWritten, hRest⟩
      have hRun :
          ∀ d ∈ c :: verbatimPart (written ++ after),
            d ≠ '"' ∧ d ≠ '\\' := by
        refine List.forall_mem_cons.mpr ⟨⟨hQuote, hStroke⟩, ?_⟩
        intro d hMem
        have hInside := List.mem_takeWhile_imp hMem
        simpa using hInside
      have hFound :
          inside?
              (c ::
                (verbatimPart (written ++ after) ++
                  (more ++ after))) =
            some ⟨.doubleQuoted,
              c :: verbatimPart (written ++ after), .inside⟩ := by
        rw [← List.append_assoc, ← hWritten]
        exact inside?_of_verbatim hQuote hStroke
      have hShorter : more.length ≤ written.length := by
        rw [hWritten, List.length_append]
        exact Nat.le_add_left _ _
      have hParts :=
        BodyParts.verbatim hRun hFound (parts_of_body hRest after)
      rw [← hWritten] at hParts
      exact hParts
termination_by written.length
decreasing_by
  all_goals
    simp only [List.length_cons]
    omega

/- The rest of a string is crossed up to its closing quote. -/
theorem crosses_body
    {written after : Text}
    (hParts : BodyParts after written) :
    Crosses (FitsToken .string) .inside written .outside after := by
  induction hParts with
  | close => exact .of_inside? rfl (.inl rfl)
  | @longEscape digits more _ _ hPart _ ih =>
      have hFirst :
          Crosses (FitsToken .string) .inside
            (.char '\\' :: .char 'u' :: digits) .inside
            (more ++ after) :=
        .of_inside? (inside?_of_escape hPart) (.inl rfl)
      exact hFirst.trans ih
  | @shortEscape e more _ hPart _ ih =>
      have hFirst :
          Crosses (FitsToken .string) .inside [.char '\\', e]
            .inside (more ++ after) :=
        .of_inside? (inside?_of_escape hPart) (.inl rfl)
      exact hFirst.trans ih
  | @stray e more _ hPart _ ih =>
      have hFirst :
          Crosses (FitsToken .string) .inside [.char '\\']
            .inside (e :: more ++ after) :=
        .of_next fun before =>
          ⟨.error, next_of_no_escape hPart before, .inr ⟨rfl, rfl⟩⟩
      exact hFirst.trans ih
  | @verbatim c run more _ hFound _ ih =>
      have hFirst :
          Crosses (FitsToken .string) .inside (c :: run) .inside
            (more ++ after) :=
        .of_inside? hFound (.inl rfl)
      exact hFirst.trans ih

------------------------------------------------------------
-- Tokens
------------------------------------------------------------

/- What is found as a word, number or sign is crossed in one piece. -/
theorem crosses_plain
    {kind : TokenKind}
    {c : CodePoint}
    {more after : Text}
    {paints : List Paint}
    (hKind : kind ≠ .string)
    (hPlain : ∀ paint ∈ paints, paint.isPlain = true)
    (hFound :
      ∀ before, ∃ paint ∈ paints,
        outside? before (c :: (more ++ after)) =
          some ⟨paint, c :: more, .outside⟩) :
    Crosses (FitsToken kind) .outside (c :: more) .outside
      after := by
  refine .of_outside? fun before => ?_
  rcases hFound before with ⟨paint, hPaint, hPiece⟩
  refine ⟨paint, hPiece, ?_⟩
  rw [FitsToken, if_neg hKind]
  exact hPlain paint hPaint

/- A number is crossed in one piece after its sign. -/
theorem crosses_number
    {c : CodePoint}
    {more after : Text}
    (hWritten :
      Lexeme.numberPart? (c :: (more ++ after)) =
        some (c :: more)) :
    Crosses (FitsToken .number) .outside (c :: more) .outside
      after := by
  have hUnsigned :
      ∀ (c : CodePoint) (more : Text),
        Lexeme.signPart (c :: (more ++ after)) = [] →
          Lexeme.numberPart? (c :: (more ++ after)) =
              some (c :: more) →
            Crosses (FitsToken .number) .outside (c :: more)
              .outside after :=
    fun c more hSign hWritten =>
      crosses_plain (by decide) (by decide)
        fun _ => outside?_number hSign hWritten
  by_cases hSign : c = '+' ∨ c = '-'
  · rcases numberPart?_signed hSign hWritten with
      ⟨unsigned, hSame, hNone, hAfter⟩
    cases hSame
    cases more with
    | nil => exact absurd rfl (Lexeme.numberPart?_ne_nil hAfter)
    | cons d digits =>
        have hFound :
            ∀ before, ∃ paint ∈ [Paint.operator],
              outside? before (c :: ([] ++ (d :: digits ++ after))) =
                some ⟨paint, [c], .outside⟩ :=
          fun _ => ⟨.operator, by decide, outside?_signed hSign⟩
        have hFirst :
            Crosses (FitsToken .number) .outside [c] .outside
              (d :: digits ++ after) :=
          crosses_plain (by decide) (by decide) hFound
        exact hFirst.trans (hUnsigned d digits hNone hAfter)
  · refine hUnsigned c more ?_ hWritten
    unfold Lexeme.signPart
    split
    · rename_i hText
      exact absurd (.inl (List.cons.inj hText).1) hSign
    · rename_i hText
      exact absurd (.inr (List.cons.inj hText).1) hSign
    · rfl

/- The text of a token is crossed in pieces that fit it. -/
theorem crosses_of_reads
    {c : CodePoint}
    {more after : Text}
    {kind : TokenKind}
    {literal : Option Value}
    (hReads :
      Lexeme.Reads c (more ++ after)
        ⟨c :: more, some kind, literal⟩) :
    Crosses (FitsToken kind) .outside (c :: more) .outside
      after := by
  generalize hRest : more ++ after = rest at hReads
  generalize hLexeme :
    (⟨c :: more, some kind, literal⟩ : Lexeme) = lexeme at hReads
  cases hReads with
  | blank => cases hLexeme
  | comment => cases hLexeme
  | doubleQuoted hQuoted =>
      cases hLexeme
      have hFirst :
          Crosses (FitsToken .string) .outside [.char '"'] .inside
            (more ++ after) :=
        .of_outside? fun _ =>
          ⟨.doubleQuoted, outside?_doubleQuote, .inl rfl⟩
      exact hFirst.trans
        (crosses_body
          (parts_of_body
            (Lexeme.body_of_doubleQuoted? hQuoted).1 after))
  | singleQuoted hCut =>
      cases hLexeme
      refine .of_outside? fun _ =>
        ⟨.singleQuoted, ?_, .inl rfl⟩
      rw [hRest]
      exact outside?_singleQuoted hCut
  | number hWritten =>
      cases hLexeme
      rw [← hRest] at hWritten
      exact crosses_number hWritten
  | word hLetter =>
      have hKind : (Lexeme.word (c :: rest)).kind = some kind := by
        rw [← hLexeme]
      have hText : namePart (c :: rest) = c :: more := by
        have hWritten := congrArg Lexeme.text hLexeme
        have hFirst : c.continuesName = true := by
          simp [CodePoint.continuesName, hLetter]
        simp only [Lexeme.word, Lexeme.plain, hFirst, if_true,
          List.takeWhile_cons] at hWritten
        simp only [namePart, hLetter, if_true, hWritten]
      have hOther : kind ≠ .string := by
        rintro rfl
        cases Lexeme.of_word (· != .string) (by decide) rfl hKind
      have hFound :
          ∀ before, ∃ paint ∈
              [Paint.keyword, .constant, .function, .attribute,
                .variable],
            outside? before (c :: (more ++ after)) =
              some ⟨paint, c :: more, .outside⟩ := by
        intro before
        rw [hRest, ← hText]
        exact outside?_name hLetter
      exact crosses_plain hOther (by decide) hFound
  | longSign hLong =>
      have hOther : kind ≠ .string := by
        cases hLexeme
        rintro rfl
        cases Lexeme.of_lookup (· != .string) (by decide) hLong
      have hText : c :: rest.take 1 = c :: more :=
        (congrArg Lexeme.text hLexeme).symm
      have hFound :
          ∀ before, ∃ paint ∈ [Paint.operator],
            outside? before (c :: (more ++ after)) =
              some ⟨paint, c :: more, .outside⟩ := by
        intro before
        rw [hRest, ← hText]
        exact ⟨.operator, by decide, outside?_longSign hLong⟩
      exact crosses_plain hOther (by decide) hFound
  | shortSign hLong hShort =>
      cases hLexeme
      have hOther : kind ≠ .string := by
        rintro rfl
        cases Lexeme.of_lookup (· != .string) (by decide) hShort
      have hFound :
          ∀ before, ∃ paint ∈
              [Paint.marker, .operator, .punctuation],
            outside? before (c :: ([] ++ after)) =
              some ⟨paint, [c], .outside⟩ := by
        intro before
        rw [hRest]
        exact outside?_shortSign hLong hShort
      exact crosses_plain hOther (by decide) hFound

------------------------------------------------------------
-- Gaps
------------------------------------------------------------

/- A gap goes on after the blank space at its front. -/
theorem isGap_dropWhile
    {gap rest : Text}
    (hGap : IsGap rest gap) :
    IsGap rest (gap.dropWhile CodePoint.isBlank) := by
  induction hGap with
  | nil => exact .nil
  | blank hBlank hMore ih =>
      rw [List.dropWhile_cons_of_pos hBlank]
      exact ih
  | comment hBody hEnd hMore ih =>
      rw [List.dropWhile_cons_of_neg (by decide)]
      exact .comment hBody hEnd hMore

/- A run of blank space in a gap does not go on after the gap. -/
theorem takeWhile_isBlank_append
    {rest : Text}
    (hRest : ∀ c ∈ rest.head?, c.isBlank = false)
    (gap : Text) :
    (gap ++ rest).takeWhile CodePoint.isBlank =
      gap.takeWhile CodePoint.isBlank := by
  induction gap with
  | nil =>
      cases rest with
      | nil => rfl
      | cons c rest => simp [hRest c rfl]
  | cons c gap ih => simp [List.takeWhile_cons, ih]

/- A comment ends where it is said to end. -/
theorem takeWhile_comment
    {body gap rest : Text}
    (hBody : .char '\n' ∉ body)
    (hEnd : ∀ c ∈ (gap ++ rest).head?, c = '\n') :
    (body ++ (gap ++ rest)).takeWhile (· ≠ .char '\n') = body := by
  have hAll : ∀ c ∈ body, decide (c ≠ .char '\n') = true := by
    rintro c hMem
    exact decide_eq_true fun hSame => hBody (hSame ▸ hMem)
  rw [List.takeWhile_append_of_pos hAll]
  cases hAfter : gap ++ rest with
  | nil => simp
  | cons c after =>
      have hFeed := hEnd c (by rw [hAfter]; rfl)
      simp [hFeed]

/- A gap is crossed in runs of blank space and whole comments. -/
theorem exists_fill
    {gap rest : Text}
    (hGap : IsGap rest gap)
    (hRest : ∀ c ∈ rest.head?, c.isBlank = false)
    (before : Option CodePoint) :
    ∃ group last,
      piecesFrom .outside before (gap ++ rest) =
          group ++ piecesFrom .outside last rest ∧
        spelled group = gap ∧ FillsGap rest group := by
  cases hGap with
  | nil => exact ⟨[], before, rfl, rfl, .nil⟩
  | @blank c gap hBlank hMore =>
      let run := gap.takeWhile CodePoint.isBlank
      let others := gap.dropWhile CodePoint.isBlank
      have hSplit : run ++ others = gap :=
        List.takeWhile_append_dropWhile
      have hShorter :
          (gap.dropWhile CodePoint.isBlank).length ≤ gap.length :=
        List.length_dropWhile_le _ _
      rcases exists_fill (isGap_dropWhile hMore) hRest
          (c :: run).getLast? with
        ⟨group, last, hGroup, hText, hFills⟩
      have hFound :
          next .outside before c (run ++ (others ++ rest)) =
            ⟨.blank, c :: run, .outside⟩ := by
        rw [← List.append_assoc, hSplit]
        simp only [next, outside?_blank hBlank,
          takeWhile_isBlank_append hRest, Option.getD_some]
        rfl
      refine ⟨(.blank, c :: run) :: group, last, ?_, ?_, ?_⟩
      · rw [← hSplit, List.cons_append, List.append_assoc,
          ← List.cons_append, piecesFrom_of_next hFound, hGroup]
        rfl
      · rw [spelled, List.flatMap_cons, ← spelled, hText,
          List.cons_append, hSplit]
      · refine .blank (List.forall_mem_cons.mpr ⟨hBlank, ?_⟩) hFills
        exact fun _ hMem => List.mem_takeWhile_imp hMem
  | @comment body gap hBody hEnd hMore =>
      rcases exists_fill hMore hRest
          (.char '#' :: body).getLast? with
        ⟨group, last, hGroup, hText, hFills⟩
      have hFound :
          next .outside before (.char '#') (body ++ (gap ++ rest)) =
            ⟨.comment, .char '#' :: body, .outside⟩ := by
        simp only [next, outside?_comment,
          takeWhile_comment hBody hEnd, Option.getD_some]
      refine
        ⟨(.comment, .char '#' :: body) :: group, last, ?_, ?_, ?_⟩
      · rw [List.cons_append, List.append_assoc,
          ← List.cons_append, piecesFrom_of_next hFound, hGroup]
        rfl
      · rw [spelled, List.flatMap_cons, ← spelled, hText]
        rfl
      · rw [← hText] at hEnd
        exact .comment hBody hEnd hFills
termination_by gap.length
decreasing_by
  all_goals
    simp only [List.length_cons, List.length_append]
    omega

------------------------------------------------------------
-- Scripts
------------------------------------------------------------

/- Pieces that follow tokens and gaps make up their text. -/
theorem Follows.spelled_eq
    {lastGap : Text}
    {entries : List (Text × Token)}
    {pieces : List (Paint × Text)}
    (hFollows : Follows lastGap entries pieces) :
    spelled pieces = Layout.spelled entries ++ lastGap := by
  induction hFollows with
  | last hGap hFills => exact hGap
  | entry hGap hFills hToken hFits hMore ih =>
      rw [spelled_append, spelled_append, hGap, hToken, ih]
      simp [Layout.spelled]

/- Entries that are read are painted one after another. -/
theorem follows_of_entries
    {lastGap before : Text}
    {entries : List (Text × Token)}
    (hEntries :
      Layout.EachFrom Layout.IsEntry lastGap before entries)
    (hLast : IsGap [] lastGap)
    (previous : Option CodePoint) :
    Follows lastGap entries
      (piecesFrom .outside previous
        (Layout.spelled entries ++ lastGap)) := by
  induction entries generalizing before previous with
  | nil =>
      rcases exists_fill hLast nofun previous with
        ⟨group, last, hGroup, hText, hFills⟩
      rw [List.append_nil, piecesFrom.eq_def _ _ [],
        List.append_nil] at hGroup
      rw [Layout.spelled, List.flatMap_nil, List.nil_append, hGroup]
      exact .last hText hFills
  | cons entry entries ih =>
      rcases entry with ⟨gap, token⟩
      rcases hEntries with ⟨hEntry, hMore⟩
      rcases hEntry.read with ⟨c, more, hToken, hReads⟩
      let after := Layout.spelled entries ++ lastGap
      have hSolid :
          ∀ d ∈ (token.text ++ after).head?, d.isBlank = false := by
        have hFront := (hReads.hasSolidEnds rfl).1
        rw [hToken] at hFront ⊢
        exact hFront
      rw [hToken] at hReads
      have hCrosses := crosses_of_reads hReads
      rw [← hToken] at hCrosses
      rcases exists_fill hEntry.isGap hSolid previous with
        ⟨gapGroup, middle, hGapGroup, hGap, hFills⟩
      rcases hCrosses middle with
        ⟨group, last, hGroup, hText, hFits⟩
      have hPieces :
          piecesFrom .outside previous
              (Layout.spelled ((gap, token) :: entries) ++ lastGap) =
            gapGroup ++
              (group ++ piecesFrom .outside last after) := by
        rw [← hGroup, ← hGapGroup]
        simp [Layout.spelled]
      rw [hPieces]
      exact .entry hGap hFills hText hFits (ih hMore last)

/-
  A piece stands in a text where its offset says: so many code
  points come before it.
-/
def StandsIn
    (text : Text)
    (entry : Nat × Paint × Text) : Prop :=
  ∃ before after,
    text = before ++ entry.2.2 ++ after ∧
      entry.1 = before.length

/- Offsets count the code points of the pieces before. -/
theorem standsIn_of_mem_withOffsets
    {pieces : List (Paint × Text)}
    {entry : Nat × Paint × Text}
    (before : Text)
    (hMem : entry ∈ withOffsets before.length pieces) :
    StandsIn (before ++ spelled pieces) entry := by
  induction pieces generalizing before with
  | nil => cases hMem
  | cons piece pieces ih =>
      rcases piece with ⟨paint, text⟩
      rcases List.mem_cons.mp hMem with rfl | hLater
      · refine ⟨before, spelled pieces, ?_, rfl⟩
        rw [List.append_assoc]
        rfl
      · rw [← List.length_append] at hLater
        have hStands := ih (before ++ text) hLater
        rw [List.append_assoc] at hStands
        exact hStands

/-
  Painting agrees with the tokens of a script. Its pieces make
  up the script, each where its offset says, and they follow
  the layout of the tokens: no piece crosses the end of a
  token or of a gap, only strings have pieces of strings, and
  a comment is one piece.
-/
theorem pieces_follow_tokens
    {text : Text}
    {tokens : List Token}
    (hTokens : tokenize text = .ok tokens) :
    spelled (pieces text) = text ∧
      (∀ entry ∈ withOffsets 0 (pieces text),
        StandsIn text entry) ∧
        ∃ layout : Layout,
          layout.Describes text tokens ∧
            Follows layout.lastGap layout.entries
              (pieces text) := by
  rcases exists_read_of_tokenize hTokens with ⟨layout, hLayout⟩
  have hFollows :
      Follows layout.lastGap layout.entries (pieces text) := by
    rw [← hLayout.text_eq]
    exact follows_of_entries hLayout.entries hLayout.lastGap none
  have hSpelled : spelled (pieces text) = text :=
    hFollows.spelled_eq.trans hLayout.text_eq
  refine ⟨hSpelled, fun entry hMem => ?_, layout,
    hLayout.describes, hFollows⟩
  have hStands := standsIn_of_mem_withOffsets [] hMem
  rw [hSpelled] at hStands
  exact hStands

/-
  A signed number, a comment, and a string with a stroke that
  begins no escape.
-/
theorem pieces_follow_tokens_lines :
    ∃ tokens : List Token,
      tokenize "x = -1 # n\n\"a\\d\\n\"" = .ok tokens ∧
        withOffsets 0 (pieces "x = -1 # n\n\"a\\d\\n\"") =
          ([(0, .variable, "x"), (1, .blank, " "),
            (2, .operator, "="), (3, .blank, " "),
            (4, .operator, "-"), (5, .integer, "1"),
            (6, .blank, " "), (7, .comment, "# n"),
            (10, .blank, "\n"), (11, .doubleQuoted, "\""),
            (12, .doubleQuoted, "a"), (13, .error, "\\"),
            (14, .doubleQuoted, "d"), (15, .escape, "\\n"),
            (17, .doubleQuoted, "\"")] :
              List (Nat × Paint × Text)) ∧
        ∃ layout : Layout,
          layout.Describes "x = -1 # n\n\"a\\d\\n\"" tokens ∧
            Follows layout.lastGap layout.entries
              (pieces "x = -1 # n\n\"a\\d\\n\"") := by
  have hRead :
      (tokenize "x = -1 # n\n\"a\\d\\n\"").toOption.isSome =
        true := by
    decide +kernel
  cases hTokens : tokenize "x = -1 # n\n\"a\\d\\n\"" with
  | error error =>
      rw [hTokens] at hRead
      cases hRead
  | ok tokens =>
      refine ⟨tokens, rfl, by decide +kernel, ?_⟩
      exact (pieces_follow_tokens hTokens).2.2

end Highlight

end ExperimentScript
