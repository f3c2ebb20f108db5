import ExperimentScript.Proofs.Lexer.Places
import ExperimentScript.Proofs.Lexer.Shortened

/-
  Parts of a script are read as within it.

  Lexemes are read again from a text that is cut short after
  them. The text from one token to another, cut out of a
  script, is then read as these tokens, if the first one is a
  name: what comes before a name makes no difference.

  Key definitions include:
    * `ExperimentScript.IsCut`
    * `ExperimentScript.IsExcerpt`

  Main declarations:
    * `ExperimentScript.ReadsThrough.exists_cut`
    * `ExperimentScript.exists_excerpt`
-/

namespace ExperimentScript

namespace Lexeme

variable {ended : Bool}
variable {c : CodePoint}
variable {rest : Text}
variable {lexeme : Lexeme}

/- What gives a name or no token is read alike after any token. -/
theorem next_of_name
    {other : Bool}
    (hNext : next ended c rest = .ok lexeme)
    (hName : ∀ kind ∈ lexeme.kind, kind = .identifier) :
    next other c rest = .ok lexeme := by
  have hSigns :
      ∀ entry ∈ TokenKind.longSigns ++ TokenKind.shortSigns,
        entry.2 ≠ .identifier := by
    decide
  cases reads_of_next hNext with
  | blank hBlank => rw [next, if_pos hBlank]
  | comment => rfl
  | doubleQuoted | singleQuoted | number => cases hName _ rfl
  | word hLetter => exact next_of_isAsciiLetter hLetter other rest
  | longSign hLong =>
      exact absurd (hName _ rfl)
        (hSigns _ (List.mem_append_left _ (mem_of_lookup hLong)))
  | shortSign _ hShort =>
      exact absurd (hName _ rfl)
        (hSigns _ (List.mem_append_right _ (mem_of_lookup hShort)))

end Lexeme

------------------------------------------------------------
-- Runs That Are Cut Out
------------------------------------------------------------

namespace Scans

variable {ended endedAfter : Bool}
variable {text after : Text}
variable {symbols : List Symbol}

/- A run that begins with a name is read after any token. -/
theorem of_name
    {first : Symbol}
    (hScans : Scans ended text (first :: symbols) endedAfter after)
    (hName : first.kind = .identifier)
    (other : Bool) :
    Scans other text (first :: symbols) endedAfter after := by
  generalize hAll : first :: symbols = all at hScans
  induction hScans generalizing other with
  | done => cases hAll
  | @step ended _ c rest _ lexeme _ hNext hMore ih =>
      rcases lexeme with ⟨text, _ | kind, literal⟩
      · exact
          .step (Lexeme.next_of_name hNext nofun) (ih other hAll)
      · cases hAll
        refine .step (Lexeme.next_of_name hNext ?_) hMore
        rintro kind ⟨⟩
        exact hName

/- A lexeme that is read before more than a cut leaves is one step. -/
theorem step_shorter
    {c : CodePoint}
    {more cut rest : Text}
    {lexeme : Lexeme}
    (hNext :
      Lexeme.next ended c (more ++ (cut ++ rest)) = .ok lexeme)
    (hText : lexeme.text = c :: more)
    (hMore :
      Scans (lexeme.endsOperand ended) cut symbols endedAfter []) :
    Scans ended (c :: more ++ cut) (lexeme.symbols ++ symbols)
      endedAfter [] := by
  refine .step (Lexeme.next_shorter hNext hText) ?_
  have hDrop :
      (more.append cut).drop (lexeme.text.length - 1) = cut := by
    simp [hText]
  rwa [hDrop]

end Scans

------------------------------------------------------------
-- Texts Of Tokens In A Row
------------------------------------------------------------

namespace ReadsThrough

variable {ended : Bool}
variable {before text : Text}
variable {front run back : List Token}

/- The place of a token is reached by scanning. -/
theorem exists_skipped
    {token : Token}
    (hThrough : ReadsThrough ended before text (front ++ token :: back))
    (hBack : back ≠ []) :
    ∃ endedAfter skipped after,
      text = skipped ++ after ∧
        token.span.first = .after (before ++ skipped) ∧
        ReadsThrough endedAfter (before ++ skipped) after
          (token :: back) := by
  generalize hAll : front ++ token :: back = tokens at hThrough
  induction hThrough generalizing front with
  | done =>
      cases front with
      | nil => exact absurd (List.cons.inj hAll).2 hBack
      | cons first front => cases front <;> cases hAll
  | @skip _ before more _ c _ _ hNext hRest ih =>
      rcases ih hAll with
        ⟨endedAfter, skipped, after, rfl, hFirst, hAfter⟩
      rw [List.append_assoc] at hFirst hAfter
      exact
        ⟨endedAfter, c :: more ++ skipped, after, by simp, hFirst,
          hAfter⟩
  | @push ended before more after c _ _ _ hNext hRest ih =>
      cases front with
      | nil =>
          cases hAll
          refine ⟨ended, [], c :: more ++ after, rfl, ?_, ?_⟩
          · rw [List.append_nil]
          · rw [List.append_nil]
            exact .push hNext hRest
      | cons first front =>
          rcases ih (List.cons.inj hAll).2 with
            ⟨endedAfter, skipped, after, rfl, hFirst, hAfter⟩
          rw [List.append_assoc] at hFirst hAfter
          exact
            ⟨endedAfter, c :: more ++ skipped, after, by simp, hFirst,
              hAfter⟩

end ReadsThrough

/-
  A text after another one is scanned by itself as a run of
  tokens, and ends where the last of them does.
-/
structure IsCut
    (ended : Bool)
    (before : Text)
    (run : List Token)
    (cut : Text) : Prop where
  scans :
    ∃ endedAfter,
      Scans ended cut (run.map Token.symbol) endedAfter []
  last :
    ∀ token ∈ run.getLast?,
      token.span.last = (Point.after (before ++ cut)).last
  ne_nil : cut ≠ []
  solid : ∀ c ∈ cut.getLast?, c.isBlank = false

/- A run of tokens is cut out with the text up to the end of the last one. -/
theorem ReadsThrough.exists_cut
    {ended : Bool}
    {before text : Text}
    {run back : List Token}
    (hThrough : ReadsThrough ended before text (run ++ back))
    (hRun : run ≠ [])
    (hBack : back ≠ []) :
    ∃ cut after, text = cut ++ after ∧ IsCut ended before run cut := by
  generalize hAll : run ++ back = tokens at hThrough
  induction hThrough generalizing run with
  | done =>
      rcases List.exists_cons_of_ne_nil hRun with ⟨token, run, rfl⟩
      rcases List.append_eq_nil_iff.mp (List.cons.inj hAll).2 with
        ⟨-, hNone⟩
      exact absurd hNone hBack
  | @skip _ before more _ c _ _ hNext hRest ih =>
      rcases ih hRun hAll with ⟨cut, after, rfl, hCut⟩
      rcases hCut.scans with ⟨endedAfter, hScans⟩
      refine
        ⟨c :: more ++ cut, after, (List.append_assoc _ _ _).symm, ?_⟩
      exact
        { scans := ⟨endedAfter, .step_shorter hNext rfl hScans⟩
          last := by
            rw [← List.append_assoc]
            exact hCut.last
          ne_nil := by simp
          solid := by
            rw [List.getLast?_append_of_ne_nil _ hCut.ne_nil]
            exact hCut.solid }
  | @push _ before more after c kind _ tokens hNext hRest ih =>
      rcases List.exists_cons_of_ne_nil hRun with ⟨token, run, rfl⟩
      rcases List.cons.inj hAll with ⟨rfl, hMore⟩
      have hReads := Lexeme.reads_of_next hNext
      by_cases hOne : run = []
      · subst hOne
        have hNone :
            Lexeme.next _ c (more ++ ([] ++ after)) = .ok _ :=
          hNext
        have hStep := Scans.step_shorter hNone rfl (.done _ [])
        rw [List.append_nil, List.append_nil] at hStep
        refine ⟨c :: more, after, rfl, ?_⟩
        exact
          { scans := ⟨kind.endsOperand, hStep⟩
            last := by
              rintro token ⟨⟩
              rfl
            ne_nil := by simp
            solid := (hReads.hasSolidEnds rfl).2 }
      · rcases ih hOne hMore with ⟨cut, rest, rfl, hCut⟩
        rcases hCut.scans with ⟨endedAfter, hScans⟩
        refine
          ⟨c :: more ++ cut, rest, (List.append_assoc _ _ _).symm, ?_⟩
        exact
          { scans := ⟨endedAfter, .step_shorter hNext rfl hScans⟩
            last := by
              rw [← List.append_assoc, ← List.singleton_append,
                List.getLast?_append_of_ne_nil _ hOne]
              exact hCut.last
            ne_nil := by simp
            solid := by
              rw [List.getLast?_append_of_ne_nil _ hCut.ne_nil]
              exact hCut.solid }

------------------------------------------------------------
-- Excerpts
------------------------------------------------------------

/-
  A part of a text goes from the first to the last place of a
  run of its tokens, and is read by itself as this run.
-/
structure IsExcerpt
    (text before cut : Text)
    (run : List Token) : Prop where
  inside : ∃ after, text = before ++ (cut ++ after)
  first : ∀ token ∈ run.head?, token.span.first = .after before
  last :
    ∀ token ∈ run.getLast?,
      token.span.last = (Point.after (before ++ cut)).last
  ne_nil : cut ≠ []
  solid : ∀ c ∈ cut.getLast?, c.isBlank = false
  read :
    ∃ tokens,
      tokenize cut = .ok tokens ∧
        tokens.map Token.symbol =
          run.map Token.symbol ++ [⟨.endOfInput, [], none⟩]

/- A run of tokens that begins with a name has an excerpt. -/
theorem exists_excerpt
    {text : Text}
    {tokens run : List Token}
    {name close : Token}
    (hTokens : tokenize text = .ok (tokens ++ [close]))
    (hRun : run <:+: tokens)
    (hHead : name ∈ run.head?)
    (hName : name.kind = .identifier) :
    ∃ before cut, IsExcerpt text before cut run := by
  rcases hRun with ⟨front, back, rfl⟩
  rcases List.head?_eq_some_iff.mp hHead with ⟨more, rfl⟩
  have hThrough :
      ReadsThrough false [] text
        (front ++ name :: (more ++ (back ++ [close]))) := by
    simpa using readsThrough_of_tokenize hTokens
  rcases hThrough.exists_skipped (by simp) with
    ⟨_, before, rest, hText, hFirst, hRest⟩
  rcases hRest.exists_cut (List.cons_ne_nil _ _) (by simp) with
    ⟨cut, after, rfl, hCut⟩
  rcases hCut.scans with ⟨_, hScans⟩
  refine ⟨before, cut, ?_⟩
  exact
    { inside := ⟨after, hText⟩
      first := by
        rintro token ⟨⟩
        exact hFirst
      last := hCut.last
      ne_nil := hCut.ne_nil
      solid := hCut.solid
      read := (hScans.of_name hName false).tokenize }

end ExperimentScript
