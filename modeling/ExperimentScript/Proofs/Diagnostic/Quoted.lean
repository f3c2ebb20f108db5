import ExperimentScript.Proofs.Diagnostic.Carets
import ExperimentScript.Proofs.Lexer.Stopping
import ExperimentScript.Proofs.Parser.Blamed
import ExperimentScript.Proofs.Parser.Joined
import ExperimentScript.Proofs.Text.Lines

/-
  Which source line is quoted for an error of a script.

  An error is found at the place of a lexeme, whose line is
  counted by line feeds, and the line that is quoted is the
  displayed one of that number. It has the lexeme at the column
  of the place if no displayed line has ended before otherwise
  than with a line feed. If one has, what is quoted has ended
  before the place.

  Key definitions include:
    * `ExperimentScript.ScriptError.StandsBetween`
    * `ExperimentScript.Diagnostic.Quotes`

  Main declarations:
    * `ExperimentScript.exists_between_of_parse`
    * `ExperimentScript.Diagnostic.quotes_place`
    * `ExperimentScript.Diagnostic.quotes_of_parse`
-/

namespace ExperimentScript

------------------------------------------------------------
-- What Errors Are About
------------------------------------------------------------

namespace Point

/- The numbers of a place are in reach of the length of a text. -/
structure IsWithin (point : Point) (text : Text) : Prop where
  line : 1 ≤ point.line ∧ point.line ≤ text.length + 1
  col : 1 ≤ point.col ∧ point.col ≤ text.length + 1

theorem isWithin_after
    {text front : Text}
    (hFront : front <+: text) :
    (after front).IsWithin text := by
  have hLength := hFront.length_le
  have hFeeds : front.count (.char '\n') ≤ front.length :=
    List.count_le_length
  have hLine : front.lastLine.length ≤ front.length :=
    (List.rtakeWhile_suffix _ front).length_le
  constructor <;> simp only [after] <;> omega

theorem IsWithin.last
    {text : Text}
    {point : Point}
    (hWithin : point.IsWithin text) :
    point.last.IsWithin text := by
  have hCol := hWithin.col
  refine ⟨hWithin.line, ?_⟩
  simp only [Point.last]
  omega

end Point

namespace ScriptError

/-
  What an error is about is at the front of a text: something
  that cannot be read, or a token, which may be the end.
-/
def BeginsAt : ScriptError → Text → Prop
  | .lexical error, rest =>
    ∃ ended, Lexeme.Unreadable ended rest error.cause
  | .syntactic error, rest =>
    if error.found.kind = .endOfInput then rest = []
    else error.found.text ≠ [] ∧ error.found.text <+: rest

/- The place of an error is that between two texts. -/
structure StandsBetween
    (error : ScriptError)
    (before after : Text) : Prop where
  first_eq : error.span.first = .after before
  begins : error.BeginsAt after

end ScriptError

/- The ends of displayed lines are blank. -/
theorem CodePoint.isBlank_of_isLineEnd
    {c : CodePoint}
    (hEnd : c.isLineEnd = true) :
    c.isBlank = true := by
  simp only [isLineEnd, List.contains_eq_mem, decide_eq_true_eq,
    List.mem_cons, List.not_mem_nil, or_false] at hEnd
  simp only [isBlank, inRanges, blankRanges, List.any_cons,
    Bool.or_eq_true, decide_eq_true_eq]
  omega

/- What cannot be read begins with something to see. -/
theorem Lexeme.Unreadable.head
    {ended : Bool}
    {text : Text}
    {cause : LexCause}
    (hUnreadable : Unreadable ended text cause) :
    ∀ c ∈ text.head?, c.isBlank = false := by
  have hNumber {c : CodePoint} {rest : Text}
      (hAhead : numberAhead ended c rest = true) :
      c.isBlank = false := by
    have hHalt := isHalt_of_numberAhead hAhead
    rw [CodePoint.isHalt, Bool.or_eq_false_iff] at hHalt
    exact hHalt.1
  cases hUnreadable with
  | doubleQuote => rintro c ⟨⟩; rfl
  | singleQuote => rintro c ⟨⟩; rfl
  | noNumber hAhead => rintro c ⟨⟩; exact hNumber hAhead
  | infinite hAhead => rintro c ⟨⟩; exact hNumber hAhead
  | tooLong hAhead => rintro c ⟨⟩; exact hNumber hAhead
  | nothing hNothing => rintro c ⟨⟩; exact hNothing.not_blank

/- So does every token but the end. -/
theorem head_of_tokenize
    {text : Text}
    {tokens : List Token}
    {close : Token}
    (hTokens : tokenize text = .ok (tokens ++ [close])) :
    ∀ token ∈ tokens, ∀ c ∈ token.text.head?, c.isBlank = false := by
  rcases exists_read_of_tokenize hTokens with ⟨layout, hLayout⟩
  rcases List.append_inj' hLayout.tokens_eq rfl with ⟨rfl, -⟩
  refine hLayout.entries.forall_mem fun _ _ token _ hEntry => ?_
  rcases hEntry.read with ⟨c, more, hText, hReads⟩
  exact (hReads.hasSolidEnds rfl).1

/- Every error of a script stands at a place in it and ends in it. -/
theorem exists_between_of_parse
    {strict : Bool}
    {source : Text}
    {error : ScriptError}
    (hError : parse strict source = .error error) :
    ∃ before after,
      source = before ++ after ∧
        error.StandsBetween before after ∧
        (∀ c ∈ after.head?, c.isBlank = false) ∧
        error.span.last.IsWithin source := by
  rw [parse] at hError
  cases hTokens : tokenize source with
  | error lexical =>
      rw [hTokens] at hError
      cases hError
      rcases exists_stop_of_scanFrom (scan_of_tokenize_error hTokens)
        with ⟨before, after, hSource, hPoint, -, hUnreadable⟩
      have hPlace : lexical.point = .after before :=
        hPoint.trans (Point.after_advance [] before)
      have hWithin : lexical.point.IsWithin source := by
        rw [hPlace]
        exact Point.isWithin_after ⟨after, hSource.symm⟩
      exact
        ⟨before, after, hSource, ⟨hPlace, _, hUnreadable⟩,
          hUnreadable.head, hWithin⟩
  | ok tokens =>
      have hClosed := areClosed_of_tokenize hTokens
      simp only [hTokens] at hError
      cases hTree : parseTokens strict tokens with
      | ok tree =>
          rw [hTree] at hError
          cases hError
      | error syntactic =>
          rw [hTree] at hError
          cases hError
          have hFound := found_mem_of_parseTokens hClosed hTree
          rcases hClosed with ⟨inner, close, rfl, hClose, -⟩
          rcases hasTokens_of_tokenize hTokens with ⟨hAll, hEnd⟩
          rcases List.mem_append.mp hFound with hInner | hLast
          · rcases hAll.standsAt _ hInner with
              ⟨before, back, rfl, hStands⟩
            refine
              ⟨before, _, rfl, ⟨hStands.first_eq, ?_⟩, ?_,
                hStands.last_eq ▸ Point.isWithin_after ?_⟩
            · rw [ScriptError.BeginsAt, if_neg (hAll.kind_ne _ hInner)]
              exact ⟨hStands.ne_nil, List.prefix_append _ _⟩
            · rw [List.head?_append_of_ne_nil _ hStands.ne_nil]
              exact head_of_tokenize hTokens _ hInner
            · rw [List.prefix_append_right_inj]
              exact
                (List.dropLast_prefix _).trans (List.prefix_append _ _)
          · rw [List.mem_singleton] at hLast
            have hSpan :
                (ScriptError.syntactic syntactic).span =
                  ⟨.after source, (Point.after source).last⟩ := by
              rw [ScriptError.span, hLast, hEnd]
              rfl
            refine
              ⟨source, [], (List.append_nil source).symm,
                ⟨congrArg Span.first hSpan, ?_⟩,
                fun c hMem => absurd hMem (Option.not_mem_none c), ?_⟩
            · rw [ScriptError.BeginsAt, hLast, if_pos hClose]
            · rw [hSpan]
              exact
                (Point.isWithin_after (List.prefix_refl source)).last

namespace Diagnostic

------------------------------------------------------------
-- Quoted Lines
------------------------------------------------------------

/-
  What is quoted for a place between two texts. The line to
  quote is the one between line feeds that goes on over the
  place, and what comes after the place is at its column.
-/
structure Quotes
    (before after : Text)
    (place : Point)
    (shown : Option Text) : Prop where
  whole :
    ((before ++ after).splitOn '\n')[place.line - 1]? =
      some (Text.wholeLine before after)
  column :
    (Text.wholeLine before after)[place.col - 1]? = after.head?
  shown_eq : shown = (before ++ after).lineAt? place.line
  -- Without stray ends before the place its line is shown up to
  -- where a displayed line ends in it.
  right :
    before.strayEnds = 0 →
      ∀ quoted ∈ shown,
        quoted = (Text.wholeLine before after).frontLine
  found :
    before.strayEnds = 0 → after ≠ [] →
      ∃ quoted ∈ shown, quoted[place.col - 1]? = after.head?
  -- With stray ends the line shown is one before that of the
  -- place, which comes as many lines later.
  astray :
    before.strayEnds ≠ 0 → shown = before.lineAt? place.line
  held :
    after ≠ [] →
      (before ++ after).lineAt? (place.line + before.strayEnds) =
        some (before.backLine ++ after.frontLine)

theorem quotes_place
    {after : Text}
    (before : Text)
    (hAfter : ∀ c ∈ after.head?, c.isLineEnd = false) :
    Quotes before after (.after before)
      ((before ++ after).lineAt? (Point.after before).line) := by
  have hFeed : ∀ c ∈ after.head?, c ≠ '\n' := by
    rintro c hMem rfl
    cases hAfter _ hMem
  have hPlace :
      (before ++ after).lineAt?
          ((Point.after before).line + before.strayEnds) =
        if before.backLine ++ after = [] then none
        else some (before.backLine ++ after.frontLine) := by
    rw [Point.after, Nat.add_right_comm]
    exact Text.lineAt?_place before hAfter
  refine
    { whole := Text.getElem?_splitOn_place before after
      column := Text.getElem?_wholeLine before hFeed
      shown_eq := rfl
      right := fun hStray quoted hMem => ?_
      found := fun hStray hNotEnd => ?_
      astray := fun hStray => Text.lineAt?_astray hStray hAfter
      held := fun hNotEnd => ?_ }
  · rw [hStray, Nat.add_zero, Option.mem_def.mp hMem] at hPlace
    rw [Text.frontLine_wholeLine hStray]
    exact Option.some.inj
      (Option.ite_none_left_eq_some.mp hPlace.symm).2.symm
  · rw [hStray, Nat.add_zero, if_neg (by simp [hNotEnd])] at hPlace
    refine ⟨_, hPlace, ?_⟩
    rw [Text.backLine_eq_lastLine hStray]
    exact Text.getElem?_place before.lastLine hAfter
  · rw [hPlace, if_neg (by simp [hNotEnd])]

/-
  The block of an error quotes a line for the place of the
  error, in whatever text the script is.
-/
theorem quotes_of_parse
    {strict : Bool}
    {source file : Text}
    {sourceOf : Text → Text}
    {error : ScriptError}
    (hError : parse strict source = .error error)
    (hSource : sourceOf file = source)
    (color : Bool) :
    ∃ before after shown,
      source = before ++ after ∧
        error.StandsBetween before after ∧
        Quotes before after error.span.first shown ∧
        render color sourceOf (error.diagnostic file) =
          Text.join "\n"
            (headingLine color (error.diagnostic file) ::
              placeLines color (.ofSpan file error.span) ++
              shownRows color (.severity .error)
                (.ofSpan file error.span) shown ++
              noteLines color (error.diagnostic file)) := by
  rcases exists_between_of_parse hError with
    ⟨before, after, rfl, hStands, hHead, -⟩
  have hAfter : ∀ c ∈ after.head?, c.isLineEnd = false := by
    intro c hMem
    by_contra hEnd
    rw [Bool.not_eq_false] at hEnd
    have hBlank := hHead c hMem
    rw [CodePoint.isBlank_of_isLineEnd hEnd] at hBlank
    cases hBlank
  have hQuotes := quotes_place before hAfter
  rw [← hStands.first_eq] at hQuotes
  have hLine :
      lineAt? (sourceOf file) error.span.first.line =
        (before ++ after).lineAt? error.span.first.line := by
    have hPositive : 0 < (Point.after before).line := Nat.succ_pos _
    rw [lineAt?, hSource, hStands.first_eq, if_pos (by omega),
      Int.toNat_natCast]
  refine ⟨before, after, _, rfl, hStands, hQuotes, ?_⟩
  have hLabels :
      (error.diagnostic file).labels.flatMap
          (labelLines color (.severity .error) sourceOf) =
        placeLines color (.ofSpan file error.span) ++
          shownRows color (.severity .error)
            (.ofSpan file error.span)
            ((before ++ after).lineAt? error.span.first.line) := by
    rw [ScriptError.diagnostic, List.flatMap_singleton,
      labelLines_of_isEmpty rfl, sourceLines_eq, ← hLine]
    rfl
  rw [render_eq]
  exact congrArg
    (fun lines =>
      Text.join "\n"
        (headingLine color (error.diagnostic file) :: lines ++
          noteLines color (error.diagnostic file)))
    hLabels

/-
  A line that ends in an unusual way is quoted in place of the
  one of the error.
-/
theorem quotes_of_parse_nextLine :
    ∃ error : ScriptError,
      parse true "a\u0085b\nc $" = .error error ∧
        render false (fun _ => "a\u0085b\nc $")
            (error.diagnostic "x") =
          "error[E100]: unexpected character: '$'\n" ++
            "  --> x:2:3\n     |\n     2 | b\n     |   ^" ∧
        ∃ before after shown,
          ("a\u0085b\nc $" : Text) = before ++ after ∧
            error.StandsBetween before after ∧
            Quotes before after error.span.first shown ∧
            render false (fun _ => "a\u0085b\nc $")
                (error.diagnostic "x") =
              Text.join "\n"
                (headingLine false (error.diagnostic "x") ::
                  placeLines false (.ofSpan "x" error.span) ++
                  shownRows false (.severity .error)
                    (.ofSpan "x" error.span) shown ++
                  noteLines false (error.diagnostic "x")) := by
  have hFailure :
      (scan "a\u0085b\nc $").failure =
        some ⟨.unexpectedCharacter '$', ⟨2, 3⟩⟩ := by
    decide +kernel
  have hError :
      parse true "a\u0085b\nc $" =
        .error (.lexical ⟨.unexpectedCharacter '$', ⟨2, 3⟩⟩) := by
    rw [parse, tokenize, hFailure]
  exact
    ⟨_, hError, by decide +kernel,
      @quotes_of_parse true _ "x" (fun _ => "a\u0085b\nc $") _ hError
        rfl false⟩

end Diagnostic

end ExperimentScript
