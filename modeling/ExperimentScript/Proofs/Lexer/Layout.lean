import Mathlib.Data.List.DropRight
import ExperimentScript.Proofs.Lexer.Front

/-
  Scripts are cut into tokens and gaps without loss, and every
  token knows its place.

  A layout lists the tokens of a text, each with the gap
  before it. Gaps hold blank space and comments, and together
  with the texts of the tokens they make up the whole text.
  Places are said in terms of the text before them: the line
  by its line feeds, the column by what follows the last one.

  Key definitions include:
    * `ExperimentScript.Point.after`
    * `ExperimentScript.IsGap`
    * `ExperimentScript.Layout`
    * `ExperimentScript.Layout.Describes`
    * `ExperimentScript.ReadsThrough`

  Main declarations:
    * `ExperimentScript.Point.after_advance`
    * `ExperimentScript.readsThrough_of_tokenize`
    * `ExperimentScript.ReadsThrough.exists_layout`
    * `ExperimentScript.layout_of_tokenize`
-/

namespace ExperimentScript

------------------------------------------------------------
-- Places
------------------------------------------------------------

/- The part of a text after its last line feed. -/
def Text.lastLine (text : Text) : Text :=
  text.rtakeWhile (· ≠ .char '\n')

namespace Point

/-
  The place after a text: its line is one more than the line
  feeds of the text, its column one more than the code points
  after the last of them.
-/
def after (text : Text) : Point :=
  ⟨text.count (.char '\n') + 1, text.lastLine.length + 1⟩

theorem after_concat
    (text : Text)
    (c : CodePoint) :
    after (text ++ [c]) = (after text).step c := by
  unfold after step Text.lastLine
  rw [List.count_append, List.rtakeWhile_concat]
  by_cases hFeed : c = '\n'
  · simp [hFeed]
  · simp [hFeed]

/- Advancing over a text leads to the place after it. -/
theorem after_advance (before text : Text) :
    (after before).advance text = after (before ++ text) := by
  induction text generalizing before with
  | nil => rw [List.append_nil]; rfl
  | cons c text ih =>
      have hStep := ih (before ++ [c])
      rw [after_concat, List.append_assoc] at hStep
      exact hStep

/- The last place before a text has ended is that of its last code point. -/
theorem last_after
    {text : Text}
    (hText : text ≠ [])
    (hLast : ∀ c ∈ text.getLast?, c ≠ '\n')
    (before : Text) :
    (after (before ++ text)).last =
      after (before ++ text.dropLast) := by
  have hOther : text.getLast hText ≠ '\n' :=
    hLast _ (List.getLast?_eq_some_getLast hText)
  have hSplit :
      before ++ text =
        before ++ text.dropLast ++ [text.getLast hText] := by
    rw [List.append_assoc, List.dropLast_concat_getLast]
  rw [hSplit, after_concat, step, if_neg hOther]
  simp [last, after]

end Point

------------------------------------------------------------
-- Gaps
------------------------------------------------------------

/-
  A text between tokens: blank space and comments. A comment
  goes on to a line feed or to the end of the script, which
  goes on with the rest after the gap.
-/
inductive IsGap (rest : Text) : Text → Prop where
  | nil : IsGap rest []
  | blank
      {c : CodePoint}
      {gap : Text}
      (hBlank : c.isBlank = true)
      (hMore : IsGap rest gap) :
      IsGap rest (c :: gap)
  | comment
      {body gap : Text}
      (hBody : .char '\n' ∉ body)
      (hEnd : ∀ c ∈ (gap ++ rest).head?, c = '\n')
      (hMore : IsGap rest gap) :
      IsGap rest (.char '#' :: (body ++ gap))

/- What is skipped before a gap is part of a larger gap. -/
theorem IsGap.of_reads
    {c : CodePoint}
    {more after gap rest : Text}
    {lexeme : Lexeme}
    (hReads : Lexeme.Reads c (more ++ after) lexeme)
    (hText : lexeme.text = c :: more)
    (hKind : lexeme.kind = none)
    (hAfter : after = gap ++ rest)
    (hGap : IsGap rest gap) :
    IsGap rest (c :: more ++ gap) := by
  generalize hWhole : more ++ after = whole at hReads
  cases hReads with
  | blank hBlank =>
      cases hText
      exact .blank hBlank hGap
  | comment =>
      cases hText
      have hSame :
          after = whole.dropWhile (· ≠ CodePoint.char '\n') :=
        List.append_cancel_left
          (hWhole.trans List.takeWhile_append_dropWhile.symm)
      refine .comment ?_ ?_ hGap
      · intro hMem
        have hOther := List.mem_takeWhile_imp hMem
        simp at hOther
      · rw [← hAfter, hSame]
        intro c hMem
        have hStop :=
          List.head?_dropWhile_not (· ≠ CodePoint.char '\n') whole
        rw [Option.mem_def.mp hMem] at hStop
        simpa using hStop
  | doubleQuoted => cases hKind
  | singleQuoted => cases hKind
  | number => cases hKind
  | word => cases hKind
  | longSign => cases hKind
  | shortSign => cases hKind

------------------------------------------------------------
-- Layouts
------------------------------------------------------------

/-
  A text cut into tokens: every token with the gap before it,
  and the gap after the last token.
-/
structure Layout where
  entries : List (Text × Token)
  lastGap : Text

namespace Layout

/- The text that tokens and the gaps before them make up. -/
def spelled (entries : List (Text × Token)) : Text :=
  entries.flatMap fun (gap, token) => gap ++ token.text

/- The whole text of a layout. -/
def text (layout : Layout) : Text :=
  spelled layout.entries ++ layout.lastGap

/- The tokens of a layout. -/
def tokens (layout : Layout) : List Token :=
  layout.entries.map Prod.snd

/-
  What holds of every entry, given the text before it, its
  gap, its token and the text after it.
-/
def EachFrom
    (good : Text → Text → Token → Text → Prop)
    (lastGap : Text) :
    Text → List (Text × Token) → Prop
  | _, [] => True
  | before, (gap, token) :: entries =>
    good before gap token (spelled entries ++ lastGap) ∧
      EachFrom good lastGap (before ++ gap ++ token.text) entries

/- What holds of every entry of a layout. -/
def Each
    (layout : Layout)
    (good : Text → Text → Token → Text → Prop) : Prop :=
  EachFrom good layout.lastGap [] layout.entries

/-
  The span of a token goes from the place of its first code
  point to the place of its last one.
-/
def Spans (before gap : Text) (token : Token) : Prop :=
  token.text ≠ [] ∧
    token.span.first = .after (before ++ gap) ∧
    token.span.last = .after (before ++ gap ++ token.text.dropLast)

/-
  A layout describes a text and its tokens: it is made of
  these tokens with nothing but gaps around them, and every
  token is where it says. One more token, the only one of its
  kind, marks the end of the text.
-/
structure Describes
    (layout : Layout)
    (text : Text)
    (tokens : List Token) : Prop where
  text_eq : layout.text = text
  tokens_eq : tokens = layout.tokens ++ [.endAt (.after text)]
  kind_ne : ∀ token ∈ layout.tokens, token.kind ≠ .endOfInput
  gaps :
    layout.Each fun _ gap token after =>
      IsGap (token.text ++ after) gap
  lastGap : IsGap [] layout.lastGap
  spans :
    layout.Each fun before gap token _ =>
      Spans before gap token

/- What follows for every entry follows for all of them. -/
theorem EachFrom.mono
    {good other : Text → Text → Token → Text → Prop}
    {lastGap before : Text}
    {entries : List (Text × Token)}
    (hEach : EachFrom good lastGap before entries)
    (hGood :
      ∀ before gap token after,
        good before gap token after →
          other before gap token after) :
    EachFrom other lastGap before entries := by
  induction entries generalizing before with
  | nil => trivial
  | cons entry entries ih =>
      exact ⟨hGood _ _ _ _ hEach.1, ih hEach.2⟩

/- What holds of every entry holds of its token. -/
theorem EachFrom.forall_mem
    {good : Text → Text → Token → Text → Prop}
    {holds : Token → Prop}
    {lastGap before : Text}
    {entries : List (Text × Token)}
    (hEach : EachFrom good lastGap before entries)
    (hGood :
      ∀ before gap token after,
        good before gap token after → holds token) :
    ∀ token ∈ entries.map Prod.snd, holds token := by
  induction entries generalizing before with
  | nil => exact fun token hMem => nomatch hMem
  | cons entry entries ih =>
      exact List.forall_mem_cons.mpr
        ⟨hGood _ _ _ _ hEach.1, ih hEach.2⟩

end Layout

------------------------------------------------------------
-- Layouts That Are Read
------------------------------------------------------------

/- A token is read at the front of a text that goes on after it. -/
def Token.IsReadBefore
    (token : Token)
    (after : Text) : Prop :=
  ∃ c more,
    token.text = c :: more ∧
      Lexeme.Reads c (more ++ after)
        ⟨token.text, some token.kind, token.literal⟩

namespace Layout

/- An entry that is read where the text before it has ended. -/
structure IsEntry
    (before gap : Text)
    (token : Token)
    (after : Text) : Prop where
  isGap : IsGap (token.text ++ after) gap
  spans : Spans before gap token
  read : token.IsReadBefore after

/- A layout of what is read after a given text. -/
structure IsReadAfter
    (layout : Layout)
    (before text : Text)
    (tokens : List Token) : Prop where
  text_eq : layout.text = text
  tokens_eq :
    tokens = layout.tokens ++ [.endAt (.after (before ++ text))]
  entries : EachFrom IsEntry layout.lastGap before layout.entries
  lastGap : IsGap [] layout.lastGap

/- The layout with more text in its first gap. -/
def skip (skipped : Text) : Layout → Layout
  | ⟨[], lastGap⟩ => ⟨[], skipped ++ lastGap⟩
  | ⟨(gap, token) :: entries, lastGap⟩ =>
    ⟨(skipped ++ gap, token) :: entries, lastGap⟩

namespace IsReadAfter

variable {layout : Layout}
variable {before more after : Text}
variable {c : CodePoint}
variable {tokens : List Token}
variable {lexeme : Lexeme}

/- At the end of a text there is nothing but the last token. -/
theorem nil (before : Text) :
    IsReadAfter ⟨[], []⟩ before [] [.endAt (.after before)] where
  text_eq := rfl
  tokens_eq := by rw [List.append_nil]; rfl
  entries := trivial
  lastGap := .nil

/- What is skipped makes the first gap larger. -/
theorem skip
    (hLayout :
      layout.IsReadAfter (before ++ c :: more) after tokens)
    (hReads : Lexeme.Reads c (more ++ after) lexeme)
    (hText : lexeme.text = c :: more)
    (hKind : lexeme.kind = none) :
    (layout.skip (c :: more)).IsReadAfter before
      (c :: more ++ after) tokens := by
  rcases layout with ⟨entries, lastGap⟩
  have hTokens := hLayout.tokens_eq
  rw [List.append_assoc] at hTokens
  cases entries with
  | nil =>
      have hAfter : after = lastGap ++ [] := by
        rw [← hLayout.text_eq, List.append_nil]
        rfl
      exact
        { text_eq := by rw [hAfter, List.append_nil]; rfl
          tokens_eq := hTokens
          entries := trivial
          lastGap := .of_reads hReads hText hKind hAfter
            hLayout.lastGap }
  | cons entry entries =>
      rcases entry with ⟨gap, token⟩
      rcases hLayout.entries with ⟨hEntry, hEntries⟩
      have hAfter :
          after =
            gap ++ (token.text ++ (spelled entries ++ lastGap)) := by
        rw [← hLayout.text_eq]
        simp [Layout.text, spelled]
      have hSpans := hEntry.spans
      simp only [Spans, List.append_assoc, List.cons_append]
        at hSpans
      exact
        { text_eq := by
            rw [hAfter]
            simp [Layout.skip, Layout.text, spelled]
          tokens_eq := hTokens
          entries :=
            ⟨{ isGap :=
                .of_reads hReads hText hKind hAfter hEntry.isGap
               spans := by
                simpa only [Spans, List.append_assoc,
                  List.cons_append] using hSpans
               read := hEntry.read },
              by simpa [Layout.skip] using hEntries⟩
          lastGap := hLayout.lastGap }

/- A token that is read comes first, with no gap before it. -/
theorem push
    {token : Token}
    (hLayout :
      layout.IsReadAfter (before ++ c :: more) after tokens)
    (hReads :
      Lexeme.Reads c (more ++ after)
        ⟨token.text, some token.kind, token.literal⟩)
    (hText : token.text = c :: more)
    (hSpan :
      token.span =
        ⟨.after before,
          ((Point.after before).advance token.text).last⟩) :
    IsReadAfter ⟨([], token) :: layout.entries, layout.lastGap⟩
      before (c :: more ++ after) (token :: tokens) := by
  have hLast : ∀ c ∈ token.text.getLast?, c ≠ '\n' := by
    rintro c hMem rfl
    cases (hReads.hasSolidEnds rfl).2 _ hMem
  have hNotEmpty : token.text ≠ [] := by
    rw [hText]
    exact List.cons_ne_nil _ _
  have hAfter :
      spelled layout.entries ++ layout.lastGap = after :=
    hLayout.text_eq
  have hSpans : Spans before [] token := by
    rw [Spans, List.append_nil, hSpan, Point.after_advance,
      Point.last_after hNotEmpty hLast]
    exact ⟨hNotEmpty, rfl, rfl⟩
  have hRead : token.IsReadBefore after := ⟨c, more, hText, hReads⟩
  rw [← hAfter] at hRead
  exact
    { text_eq := by
        rw [← hAfter, ← hText]
        simp [Layout.text, spelled]
      tokens_eq := by
        rw [hLayout.tokens_eq, List.append_assoc]
        rfl
      entries :=
        ⟨⟨.nil, hSpans, hRead⟩, by
          simpa [hText] using hLayout.entries⟩
      lastGap := hLayout.lastGap }

end IsReadAfter

end Layout

------------------------------------------------------------
-- Scanning
------------------------------------------------------------

/-
  After a text another one is scanned to its end, lexeme by
  lexeme, and the tokens are those of its lexemes.
-/
inductive ReadsThrough : Bool → Text → Text → List Token → Prop where
  | done (ended : Bool) (before : Text) :
      ReadsThrough ended before [] [.endAt (.after before)]
  | skip
      {ended : Bool}
      {before more after : Text}
      {c : CodePoint}
      {literal : Option Value}
      {tokens : List Token}
      (hNext :
        Lexeme.next ended c (more ++ after) =
          .ok ⟨c :: more, none, literal⟩)
      (hRest : ReadsThrough ended (before ++ c :: more) after tokens) :
      ReadsThrough ended before (c :: more ++ after) tokens
  | push
      {ended : Bool}
      {before more after : Text}
      {c : CodePoint}
      {kind : TokenKind}
      {literal : Option Value}
      {tokens : List Token}
      (hNext :
        Lexeme.next ended c (more ++ after) =
          .ok ⟨c :: more, some kind, literal⟩)
      (hRest :
        ReadsThrough kind.endsOperand (before ++ c :: more) after
          tokens) :
      ReadsThrough ended before (c :: more ++ after)
        (⟨kind, c :: more,
          ⟨.after before, (Point.after (before ++ c :: more)).last⟩,
          literal⟩ :: tokens)

theorem readsThrough_of_scanFrom
    {ended : Bool}
    {before text : Text}
    {tokens : List Token}
    (hScan : scanFrom ended (.after before) text = ⟨tokens, none⟩) :
    ReadsThrough ended before text tokens := by
  generalize hPoint : Point.after before = point at hScan
  induction ended, point, text using scanFrom.induct generalizing
    before tokens with
  | case1 ended point =>
      rw [scanFrom_nil] at hScan
      cases hScan
      rw [← hPoint]
      exact .done ended before
  | case2 ended point c rest cause hNext =>
      rw [scanFrom_of_error hNext] at hScan
      cases hScan
  | case3 ended point c rest lexeme hNext ih =>
      rcases (Lexeme.reads_of_next hNext).exists_after with
        ⟨more, after, hText, rfl⟩
      have hDrop :
          (more ++ after).drop (lexeme.text.length - 1) = after := by
        simp [hText]
      have hPlace :
          Point.after (before ++ c :: more) =
            point.advance lexeme.text := by
        rw [← hPoint, Point.after_advance, hText]
      rw [scanFrom_of_next hNext, Scan.push] at hScan
      rw [hDrop] at ih hScan
      rcases lexeme with ⟨text, kind, literal⟩
      cases hText
      cases kind with
      | none => exact .skip hNext (ih hPlace hScan)
      | some kind =>
          rcases Scan.mk.inj hScan with ⟨hTokens, hFailure⟩
          have hAll := ReadsThrough.push hNext (ih hPlace (by rw [← hFailure]))
          rw [hPlace, hPoint] at hAll
          rw [← hTokens]
          exact hAll

/- A text that has tokens is scanned to its end. -/
theorem scan_of_tokenize
    {text : Text}
    {tokens : List Token}
    (hTokens : tokenize text = .ok tokens) :
    scan text = ⟨tokens, none⟩ := by
  simp only [tokenize] at hTokens
  split at hTokens
  · cases hTokens
  · rename_i hFailure
    cases hTokens
    rw [← hFailure]

theorem readsThrough_of_tokenize
    {text : Text}
    {tokens : List Token}
    (hTokens : tokenize text = .ok tokens) :
    ReadsThrough false [] text tokens :=
  readsThrough_of_scanFrom (scan_of_tokenize hTokens)

/- A text that is scanned to its end has a layout. -/
theorem ReadsThrough.exists_layout
    {ended : Bool}
    {before text : Text}
    {tokens : List Token}
    (hThrough : ReadsThrough ended before text tokens) :
    ∃ layout : Layout, layout.IsReadAfter before text tokens := by
  induction hThrough with
  | done ended before => exact ⟨_, .nil before⟩
  | skip hNext hRest ih =>
      rcases ih with ⟨layout, hLayout⟩
      exact ⟨_, hLayout.skip (Lexeme.reads_of_next hNext) rfl rfl⟩
  | push hNext hRest ih =>
      rcases ih with ⟨layout, hLayout⟩
      refine ⟨_, hLayout.push (Lexeme.reads_of_next hNext) rfl ?_⟩
      rw [Point.after_advance]

/- A script has a layout of the tokens that are read in it. -/
theorem exists_read_of_tokenize
    {text : Text}
    {tokens : List Token}
    (hTokens : tokenize text = .ok tokens) :
    ∃ layout : Layout, layout.IsReadAfter [] text tokens :=
  (readsThrough_of_tokenize hTokens).exists_layout

/- A layout that is read describes its text. -/
theorem Layout.IsReadAfter.describes
    {layout : Layout}
    {text : Text}
    {tokens : List Token}
    (hLayout : layout.IsReadAfter [] text tokens) :
    layout.Describes text tokens where
  text_eq := hLayout.text_eq
  tokens_eq := hLayout.tokens_eq
  kind_ne :=
    hLayout.entries.forall_mem fun _ _ token _ hEntry => by
      rcases hEntry.read with ⟨c, more, _, hReads⟩
      exact fun hEnd => hReads.kind_ne (congrArg some hEnd)
  gaps := hLayout.entries.mono fun _ _ _ _ hEntry => hEntry.isGap
  lastGap := hLayout.lastGap
  spans := hLayout.entries.mono fun _ _ _ _ hEntry => hEntry.spans

/- Every text has a token that marks its end. -/
theorem tokenize_ne_nil
    {text : Text}
    {tokens : List Token}
    (hTokens : tokenize text = .ok tokens) :
    tokens ≠ [] := by
  rcases exists_read_of_tokenize hTokens with ⟨layout, hLayout⟩
  rw [hLayout.tokens_eq]
  exact List.concat_ne_nil _ _

/-
  Nothing of a script is lost in its tokens. They are read from
  it one after another with only blank space and comments
  between them, and their spans are the places where they stand.
-/
theorem layout_of_tokenize
    {text : Text}
    {tokens : List Token}
    (hTokens : tokenize text = .ok tokens) :
    ∃ layout : Layout, layout.Describes text tokens := by
  rcases exists_read_of_tokenize hTokens with ⟨layout, hLayout⟩
  exact ⟨layout, hLayout.describes⟩

/- A comment, a string over two lines and signs in both their roles. -/
theorem layout_of_tokenize_lines :
    ∃ tokens : List Token,
      tokenize "x = -1 # one\n'b\nc'-.5" = .ok tokens ∧
        tokens.map (fun token => (token.kind, token.span)) =
          [(.identifier, ⟨⟨1, 1⟩, ⟨1, 1⟩⟩),
            (.assign, ⟨⟨1, 3⟩, ⟨1, 3⟩⟩),
            (.number, ⟨⟨1, 5⟩, ⟨1, 6⟩⟩),
            (.string, ⟨⟨2, 1⟩, ⟨3, 2⟩⟩),
            (.minus, ⟨⟨3, 3⟩, ⟨3, 3⟩⟩),
            (.number, ⟨⟨3, 4⟩, ⟨3, 5⟩⟩),
            (.endOfInput, ⟨⟨3, 6⟩, ⟨3, 5⟩⟩)] ∧
        ∃ layout : Layout,
          layout.Describes "x = -1 # one\n'b\nc'-.5" tokens := by
  have hSpans :
      (tokenize "x = -1 # one\n'b\nc'-.5").toOption.map
          (List.map fun token => (token.kind, token.span)) =
        some
          [(.identifier, ⟨⟨1, 1⟩, ⟨1, 1⟩⟩),
            (.assign, ⟨⟨1, 3⟩, ⟨1, 3⟩⟩),
            (.number, ⟨⟨1, 5⟩, ⟨1, 6⟩⟩),
            (.string, ⟨⟨2, 1⟩, ⟨3, 2⟩⟩),
            (.minus, ⟨⟨3, 3⟩, ⟨3, 3⟩⟩),
            (.number, ⟨⟨3, 4⟩, ⟨3, 5⟩⟩),
            (.endOfInput, ⟨⟨3, 6⟩, ⟨3, 5⟩⟩)] := by
    decide +kernel
  cases hTokens : tokenize "x = -1 # one\n'b\nc'-.5" with
  | error error =>
      rw [hTokens] at hSpans
      cases hSpans
  | ok tokens =>
      rw [hTokens] at hSpans
      exact
        ⟨tokens, rfl, Option.some.inj hSpans,
          layout_of_tokenize hTokens⟩

end ExperimentScript
