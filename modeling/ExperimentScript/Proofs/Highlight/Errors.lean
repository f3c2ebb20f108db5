import Mathlib.Algebra.GroupWithZero.Nat
import ExperimentScript.Proofs.Highlight.Boundaries

/-
  What is in error in the painting of a script that can be
  read: the strokes in its strings that begin no escape, each
  a piece of its own, and nothing else.

  Painting has no rule for such a stroke, while reading keeps
  it as it is written. `Marks` counts the strokes in error
  from the front of a text to its end, whatever stands before.

  Key definitions include:
    * `ExperimentScript.Lexeme.strayStrokes`
    * `ExperimentScript.Highlight.errors`
    * `ExperimentScript.Highlight.Marks`

  Main declarations:
    * `ExperimentScript.Highlight.marks_body`
    * `ExperimentScript.Highlight.marks_of_read`
    * `ExperimentScript.Highlight.errors_eq_strayStrokes`
-/

namespace ExperimentScript

------------------------------------------------------------
-- Strokes That Begin No Escape
------------------------------------------------------------

namespace Lexeme

/- Whether a known escape goes on like this after its stroke. -/
def escapeAhead : Text → Bool
  | .char 'u' :: a :: b :: c :: d :: _ =>
    (hexEscape? a b c d).isSome
  | e :: _ => (escape? e).isSome
  | [] => false

/-
  The number of strokes in the body of a string that begin no
  known escape. Reading keeps such a stroke and what comes
  after it as they are written.
-/
def strayStrokes : Text → Nat
  | .char '\\' :: e :: rest =>
    (if escapeAhead (e :: rest) then 0 else 1) + strayStrokes rest
  | _ :: rest => strayStrokes rest
  | [] => 0

/- Four hexadecimal digits make up an escape. -/
theorem isSome_hexEscape?
    {h₁ h₂ h₃ h₄ : CodePoint}
    (hDigits :
      ∀ h ∈ [h₁, h₂, h₃, h₄], h.hexValue?.isSome = true) :
    (hexEscape? h₁ h₂ h₃ h₄).isSome = true := by
  simp only [List.forall_mem_cons, Option.isSome_iff_exists]
    at hDigits
  rcases hDigits with ⟨⟨a, hA⟩, ⟨b, hB⟩, ⟨c, hC⟩, ⟨d, hD⟩, _⟩
  simp [hexEscape?, hA, hB, hC, hD]

theorem strayStrokes_cons
    {c : CodePoint}
    (hStroke : c ≠ '\\')
    (rest : Text) :
    strayStrokes (c :: rest) = strayStrokes rest := by
  rw [strayStrokes]
  rintro _ _ rfl
  exact absurd rfl hStroke

/- Code points that are no strokes count for nothing. -/
theorem strayStrokes_append
    {front : Text}
    (hFront : ∀ c ∈ front, c ≠ '\\')
    (rest : Text) :
    strayStrokes (front ++ rest) = strayStrokes rest := by
  induction front with
  | nil => rfl
  | cons c front ih =>
      rcases List.forall_mem_cons.mp hFront with
        ⟨hStroke, hOthers⟩
      rw [List.cons_append, strayStrokes_cons hStroke, ih hOthers]

end Lexeme

/-
  The number of strokes in a token that begin no known escape.
  A string in single quotes has no escapes.
-/
def Token.strayStrokes (token : Token) : Nat :=
  match token.kind, token.text with
  | .string, .char '"' :: body => Lexeme.strayStrokes body
  | _, _ => 0

namespace Highlight

------------------------------------------------------------
-- Counting Errors
------------------------------------------------------------

/- The pieces in error. -/
def errors (pieces : List (Paint × Text)) : List (Paint × Text) :=
  pieces.filter (·.1 = .error)

/- A stroke in error. -/
def stray : Paint × Text :=
  (.error, [.char '\\'])

theorem errors_append (pieces others : List (Paint × Text)) :
    errors (pieces ++ others) = errors pieces ++ errors others :=
  List.filter_append ..

theorem errors_eq_nil
    {pieces : List (Paint × Text)}
    (hPieces : ∀ piece ∈ pieces, piece.1 ≠ .error) :
    errors pieces = [] := by
  simpa [errors] using hPieces

/-
  Painting comes from the front of a text to its end with a
  given number of strokes in error, and nothing else in error.
-/
def Marks
    (count : Nat)
    (mode : Mode)
    (text : Text)
    (goOn : Mode)
    (after : Text) : Prop :=
  ∀ before, ∃ group last,
    piecesFrom mode before (text ++ after) =
        group ++ piecesFrom goOn last after ∧
      errors group = List.replicate count stray

namespace Marks

variable {mode between goOn : Mode}
variable {text more after : Text}

/- What is crossed without errors. -/
theorem of_crosses
    {good : Paint × Text → Prop}
    (hCrosses : Crosses good mode text goOn after)
    (hGood : ∀ piece, good piece → piece.1 ≠ .error) :
    Marks 0 mode text goOn after := by
  intro before
  rcases hCrosses before with ⟨group, last, hGroup, _, hAll⟩
  exact
    ⟨group, last, hGroup,
      errors_eq_nil fun piece hMem => hGood piece (hAll piece hMem)⟩

/- A piece inside a string. -/
theorem of_inside?
    {c : CodePoint}
    {paint : Paint}
    (hFound :
      inside? (c :: (more ++ after)) =
        some ⟨paint, c :: more, goOn⟩)
    (hPaint : paint ≠ .error) :
    Marks 0 .inside (c :: more) goOn after := by
  have hCrosses :
      Crosses (·.1 ≠ .error) .inside (c :: more) goOn after :=
    .of_inside? hFound hPaint
  exact of_crosses hCrosses fun _ hGood => hGood

/- A piece outside strings. -/
theorem of_outside?
    {c : CodePoint}
    {paint : Paint}
    (hFound :
      ∀ {before : Option CodePoint},
        outside? before (c :: (more ++ after)) =
          some ⟨paint, c :: more, goOn⟩)
    (hPaint : paint ≠ .error) :
    Marks 0 .outside (c :: more) goOn after := by
  have hCrosses :
      Crosses (·.1 ≠ .error) .outside (c :: more) goOn after :=
    .of_outside? fun _ => ⟨paint, hFound, hPaint⟩
  exact of_crosses hCrosses fun _ hGood => hGood

/- A stroke that begins no escape. -/
theorem of_no_escape
    {rest : Text}
    (hPart : escapePart (.char '\\' :: rest) = []) :
    Marks 1 .inside [.char '\\'] .inside rest := by
  intro before
  exact
    ⟨[stray], _,
      piecesFrom_of_next (next_of_no_escape hPart before), rfl⟩

theorem trans
    {count others : Nat}
    (hFirst : Marks count mode text between (more ++ after))
    (hSecond : Marks others between more goOn after) :
    Marks (count + others) mode (text ++ more) goOn after := by
  intro before
  rcases hFirst before with ⟨group, middle, hGroup, hCount⟩
  rcases hSecond middle with ⟨pieces, last, hPieces, hOthers⟩
  refine ⟨group ++ pieces, last, ?_, ?_⟩
  · rw [List.append_assoc, hGroup, hPieces, List.append_assoc]
  · rw [errors_append, hCount, hOthers, List.replicate_append_replicate]

end Marks

------------------------------------------------------------
-- Strings
------------------------------------------------------------

/- An escape that painting finds is known to reading. -/
theorem escapeAhead_of_digits
    {digits : Text}
    (hLength : digits.length = 4)
    (hDigits : ∀ d ∈ digits, d.hexValue?.isSome = true)
    (more : Text) :
    Lexeme.escapeAhead (.char 'u' :: (digits ++ more)) = true := by
  rcases List.length_eq_four.mp hLength with ⟨a, b, c, d, rfl⟩
  exact Lexeme.isSome_hexEscape? hDigits

theorem escapeAhead_of_escape?
    {e : CodePoint}
    (hEscape : (Lexeme.escape? e).isSome = true)
    (more : Text) :
    Lexeme.escapeAhead (e :: more) = true := by
  generalize hText : e :: more = text
  unfold Lexeme.escapeAhead
  split
  · cases hText
    cases hEscape
  · cases hText
    exact hEscape
  · cases hText

/- Where painting finds no escape, reading knows none. -/
theorem escapeAhead_of_no_escape
    {e : CodePoint}
    {more after : Text}
    (hEscape : Lexeme.escape? e = none)
    (hPart : escapePart (.char '\\' :: e :: (more ++ after)) = []) :
    Lexeme.escapeAhead (e :: more) = false := by
  generalize hText : e :: more = text
  unfold Lexeme.escapeAhead
  split
  · rename_i a b c d rest
    cases hText
    cases hHex : (Lexeme.hexEscape? a b c d).isSome with
    | false => rfl
    | true => simp [escapePart, hHex] at hPart
  · cases hText
    simp [hEscape]
  · rfl

/- The strokes in error in the rest of a string. -/
theorem marks_body
    {written after : Text}
    (hParts : BodyParts after written) :
    Marks (Lexeme.strayStrokes written) .inside written .outside
      after := by
  induction hParts with
  | close => exact .of_inside? rfl nofun
  | @longEscape digits more hLength hDigits hPart _ ih =>
      have hFirst :
          Marks 0 .inside (.char '\\' :: .char 'u' :: digits)
            .inside (more ++ after) :=
        .of_inside? (inside?_of_escape hPart) nofun
      have hPlain : ∀ d ∈ digits, d ≠ '\\' := fun d hMem =>
        (Lexeme.ne_of_isSome_hexValue? (hDigits d hMem)).2
      rw [Lexeme.strayStrokes,
        if_pos (escapeAhead_of_digits hLength hDigits more),
        Lexeme.strayStrokes_append hPlain]
      exact hFirst.trans ih
  | @shortEscape e more hEscape hPart _ ih =>
      have hFirst :
          Marks 0 .inside [.char '\\', e] .inside
            (more ++ after) :=
        .of_inside? (inside?_of_escape hPart) nofun
      rw [Lexeme.strayStrokes,
        if_pos (escapeAhead_of_escape? hEscape more)]
      exact hFirst.trans ih
  | @stray e more hEscape hPart _ ih =>
      have hFirst :
          Marks 1 .inside [.char '\\'] .inside
            (e :: more ++ after) :=
        .of_no_escape hPart
      rw [Lexeme.strayStrokes_cons (ne_of_escape?_eq_none hEscape).2]
        at ih
      rw [Lexeme.strayStrokes,
        escapeAhead_of_no_escape hEscape hPart]
      exact hFirst.trans ih
  | @verbatim c run more hRun hFound _ ih =>
      have hFirst :
          Marks 0 .inside (c :: run) .inside (more ++ after) :=
        .of_inside? hFound nofun
      rw [← List.cons_append,
        Lexeme.strayStrokes_append fun d hMem => (hRun d hMem).2,
        ← Nat.zero_add (Lexeme.strayStrokes more)]
      exact hFirst.trans ih

------------------------------------------------------------
-- Tokens And Gaps
------------------------------------------------------------

/- No piece of a word, a number or a sign is in error. -/
theorem ne_error_of_fitsToken
    {kind : TokenKind}
    (hKind : kind ≠ .string)
    (piece : Paint × Text)
    (hFits : FitsToken kind piece) :
    piece.1 ≠ .error := by
  rw [FitsToken, if_neg hKind] at hFits
  intro hError
  rw [hError] at hFits
  cases hFits

/- A string is read from one of the two quotes on. -/
theorem quoted_of_reads
    {c : CodePoint}
    {more rest : Text}
    {literal : Option Value}
    (hReads :
      Lexeme.Reads c rest ⟨c :: more, some .string, literal⟩) :
    (c = '"' ∧ ∃ value,
        Lexeme.doubleQuoted? rest = some (more, value)) ∨
      (c = '\'' ∧ ∃ body after,
        rest.cut? (.char '\'') = some (body, after) ∧
          more = body ++ [.char '\'']) := by
  generalize hLexeme :
    (⟨c :: more, some .string, literal⟩ : Lexeme) = lexeme at hReads
  cases hReads with
  | blank => cases hLexeme
  | comment => cases hLexeme
  | number => cases hLexeme
  | doubleQuoted hQuoted =>
      cases hLexeme
      exact .inl ⟨rfl, _, hQuoted⟩
  | singleQuoted hCut =>
      cases hLexeme
      exact .inr ⟨rfl, _, _, hCut, rfl⟩
  | word =>
      have hKind : (Lexeme.word (c :: rest)).kind = some .string := by
        rw [← hLexeme]
      cases Lexeme.of_word (· != .string) (by decide) rfl hKind
  | longSign hLong =>
      cases hLexeme
      cases Lexeme.of_lookup (· != .string) (by decide) hLong
  | shortSign _ hShort =>
      cases hLexeme
      cases Lexeme.of_lookup (· != .string) (by decide) hShort

/- The strokes in error in a token. -/
theorem marks_of_read
    {token : Token}
    {after : Text}
    (hRead : token.IsReadBefore after) :
    Marks token.strayStrokes .outside token.text .outside after := by
  rcases token with ⟨kind, text, span, literal⟩
  rcases hRead with ⟨c, more, rfl, hReads⟩
  by_cases hKind : kind = .string
  · subst hKind
    rcases quoted_of_reads hReads with
      ⟨rfl, value, hQuoted⟩ | ⟨rfl, body, tail, hCut, rfl⟩
    · have hFirst :
          Marks 0 .outside [.char '"'] .inside (more ++ after) :=
        .of_outside? outside?_doubleQuote nofun
      have hBody :=
        marks_body
          (parts_of_body (Lexeme.body_of_doubleQuoted? hQuoted).1
            after)
      have hWhole := hFirst.trans hBody
      rw [Nat.zero_add] at hWhole
      exact hWhole
    · exact .of_outside? (outside?_singleQuoted hCut) nofun
  · have hNone :
        Token.strayStrokes ⟨kind, c :: more, span, literal⟩ = 0 := by
      simp [Token.strayStrokes, hKind]
    rw [hNone]
    exact .of_crosses (crosses_of_reads hReads)
      (ne_error_of_fitsToken hKind)

/- No piece of a gap is in error. -/
theorem errors_of_fillsGap
    {rest : Text}
    {pieces : List (Paint × Text)}
    (hFills : FillsGap rest pieces) :
    errors pieces = [] := by
  induction hFills with
  | nil => rfl
  | blank hBlank hMore ih => exact ih
  | comment hBody hEnd hMore ih => exact ih

/- The strokes in error in the entries of a layout. -/
theorem errors_of_entries
    {lastGap before : Text}
    {entries : List (Text × Token)}
    (hEntries :
      Layout.EachFrom Layout.IsEntry lastGap before entries)
    (hLast : IsGap [] lastGap)
    (previous : Option CodePoint) :
    errors
        (piecesFrom .outside previous
          (Layout.spelled entries ++ lastGap)) =
      List.replicate
        (entries.map fun entry => entry.2.strayStrokes).sum
        stray := by
  induction entries generalizing before previous with
  | nil =>
      rcases exists_fill hLast nofun previous with
        ⟨group, last, hGroup, _, hFills⟩
      rw [List.append_nil, piecesFrom.eq_def _ _ [],
        List.append_nil] at hGroup
      rw [Layout.spelled, List.flatMap_nil, List.nil_append, hGroup]
      exact errors_of_fillsGap hFills
  | cons entry entries ih =>
      rcases entry with ⟨gap, token⟩
      rcases hEntries with ⟨hEntry, hMore⟩
      let after := Layout.spelled entries ++ lastGap
      have hSolid :
          ∀ d ∈ (token.text ++ after).head?, d.isBlank = false := by
        rcases hEntry.read with ⟨c, more, hToken, hReads⟩
        have hFront := (hReads.hasSolidEnds rfl).1
        rw [hToken] at hFront ⊢
        exact hFront
      rcases exists_fill hEntry.isGap hSolid previous with
        ⟨gapGroup, middle, hGapGroup, _, hFills⟩
      rcases marks_of_read hEntry.read middle with
        ⟨group, last, hGroup, hCount⟩
      have hPieces :
          piecesFrom .outside previous
              (Layout.spelled ((gap, token) :: entries) ++ lastGap) =
            gapGroup ++
              (group ++ piecesFrom .outside last after) := by
        rw [← hGroup, ← hGapGroup]
        simp [Layout.spelled]
      rw [hPieces, errors_append, errors_append, hCount,
        errors_of_fillsGap hFills, ih hMore last, List.nil_append,
        List.replicate_append_replicate]
      rfl

------------------------------------------------------------
-- Scripts
------------------------------------------------------------

/-
  The pieces in error of a script that can be read are the
  strokes in its strings that begin no escape, one piece for
  each. The painting is free of errors just where there is no
  such stroke.
-/
theorem errors_eq_strayStrokes
    {text : Text}
    {tokens : List Token}
    (hTokens : tokenize text = .ok tokens) :
    errors (pieces text) =
        List.replicate (tokens.map Token.strayStrokes).sum stray ∧
      ((∀ piece ∈ pieces text, piece.1 ≠ .error) ↔
        ∀ token ∈ tokens, token.strayStrokes = 0) := by
  rcases exists_read_of_tokenize hTokens with ⟨layout, hLayout⟩
  have hCount :
      errors (pieces text) =
        List.replicate (tokens.map Token.strayStrokes).sum
          stray := by
    rw [pieces, ← hLayout.text_eq, hLayout.tokens_eq]
    have hEntries :=
      errors_of_entries hLayout.entries hLayout.lastGap none
    have hEnd : (Token.endAt (.after ([] ++ text))).strayStrokes = 0 := rfl
    rw [List.map_append, List.sum_append, List.map_singleton,
      List.sum_singleton, hEnd, Nat.add_zero, Layout.tokens,
      List.map_map]
    exact hEntries
  refine ⟨hCount, ?_⟩
  have hNone :
      (∀ piece ∈ pieces text, piece.1 ≠ .error) ↔
        errors (pieces text) = [] := by
    simp [errors]
  rw [hNone, hCount, List.replicate_eq_nil_iff,
    List.sum_eq_zero_iff_forall_eq_nat, List.forall_mem_map]

/- A stroke in error before a letter, and none before a quote. -/
theorem errors_eq_strayStrokes_digits :
    ∃ tokens : List Token,
      tokenize "x = \"\\d\\\"\";" = .ok tokens ∧
        (tokens.map Token.strayStrokes).sum = 1 ∧
        errors (pieces "x = \"\\d\\\"\";") = [stray] := by
  have hRead :
      (tokenize "x = \"\\d\\\"\";").toOption.map
          (fun tokens => (tokens.map Token.strayStrokes).sum) =
        some 1 := by
    decide +kernel
  cases hTokens : tokenize "x = \"\\d\\\"\";" with
  | error error =>
      rw [hTokens] at hRead
      cases hRead
  | ok tokens =>
      rw [hTokens] at hRead
      have hCount : (tokens.map Token.strayStrokes).sum = 1 :=
        Option.some.inj hRead
      have hErrors := (errors_eq_strayStrokes hTokens).1
      rw [hCount] at hErrors
      exact ⟨tokens, rfl, hCount, hErrors⟩

end Highlight

end ExperimentScript
