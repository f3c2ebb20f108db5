import ExperimentScript.Proofs.Lexer.Halting
import ExperimentScript.Proofs.Lexer.Layout
import ExperimentScript.Proofs.Parser.Moved

/-
  Layout does not matter.

  The tokens of a script may be laid out anew, with blank space
  and comments between them. They are read again as the same
  tokens, since no lexeme goes on over the space after it and
  whether a sign belongs to a number is told by the token
  before it. As only their places are new, they are read as
  the same tree, or fail with an error that says the same.

  Key definitions include:
    * `ExperimentScript.IsSpacing`
    * `ExperimentScript.ReadAgain`
    * `ExperimentScript.Layout.Respaces`
    * `ExperimentScript.ReadAlike`

  Main declarations:
    * `ExperimentScript.Layout.Respaces.tokenize`
    * `ExperimentScript.readAlike_of_symbols`
    * `ExperimentScript.readAlike_of_respaces`
-/

namespace ExperimentScript

------------------------------------------------------------
-- Space Between Tokens
------------------------------------------------------------

/- Blank space and comments, each with the line feed that ends it. -/
inductive IsSpacing : Text → Prop where
  | nil : IsSpacing []
  | blank
      {c : CodePoint}
      {more : Text}
      (hBlank : c.isBlank = true)
      (hMore : IsSpacing more) :
      IsSpacing (c :: more)
  | comment
      {body more : Text}
      (hBody : .char '\n' ∉ body)
      (hMore : IsSpacing more) :
      IsSpacing (.char '#' :: (body ++ .char '\n' :: more))

namespace IsSpacing

variable {gap rest : Text}

/- No lexeme goes on into the space after it. -/
theorem halts
    (hSpacing : IsSpacing gap)
    (hRest : gap = [] → rest.Halts) :
    Text.Halts (gap ++ rest) := by
  cases hSpacing with
  | nil => exact hRest rfl
  | blank hBlank =>
      intro d hMem
      cases hMem
      rw [CodePoint.isHalt, hBlank, Bool.true_or]
  | comment =>
      intro d hMem
      cases hMem
      decide

/- A comment is one step. -/
theorem scans_comment
    {ended : Bool}
    {body : Text}
    (hBody : CodePoint.char '\n' ∉ body)
    (rest : Text) :
    Scans ended (.char '#' :: (body ++ .char '\n' :: rest)) []
      ended (.char '\n' :: rest) := by
  have hTaken :
      (body ++ .char '\n' :: rest).takeWhile
          (· ≠ CodePoint.char '\n') = body := by
    rw [List.takeWhile_append_of_pos]
    · simp
    · intro d hMem
      rw [decide_eq_true_eq]
      rintro rfl
      exact hBody hMem
  have hNext :
      Lexeme.next ended '#' (body ++ .char '\n' :: rest) =
        .ok (.skipped (.char '#' :: body)) := by
    change Except.ok (Lexeme.comment _) = _
    rw [Lexeme.comment, hTaken]
  have hDone :
      Scans ended ((body ++ .char '\n' :: rest).drop body.length) []
        ended (.char '\n' :: rest) := by
    rw [List.drop_left]
    exact .done _ _
  exact .step hNext hDone

/- Space between tokens gives no token. -/
theorem scans
    {ended : Bool}
    (hSpacing : IsSpacing gap) :
    Scans ended (gap ++ rest) [] ended rest := by
  induction hSpacing with
  | nil => exact .done _ _
  | blank hBlank hMore ih => exact (Scans.blank hBlank).trans ih
  | @comment body more hBody hMore ih =>
      rw [List.cons_append, List.append_assoc, List.cons_append]
      exact (scans_comment hBody _).trans (Scans.newline.trans ih)

end IsSpacing

------------------------------------------------------------
-- Tokens That Are Read Again
------------------------------------------------------------

/-
  Tokens that are read again one after another, each before
  any halt. Whether an operand has ended is told by the token
  before.
-/
inductive ReadAgain : Bool → List Token → Prop where
  | nil (ended : Bool) : ReadAgain ended []
  | cons
      {ended : Bool}
      {token : Token}
      {tokens : List Token}
      {c : CodePoint}
      {more : Text}
      (hText : token.text = c :: more)
      (hAgain :
        ∀ stop : Text, stop.Halts →
          Lexeme.next ended c (more ++ stop) =
            .ok ⟨c :: more, some token.kind, token.literal⟩)
      (hMore : ReadAgain token.kind.endsOperand tokens) :
      ReadAgain ended (token :: tokens)

/- The tokens of a text are read again. -/
theorem ReadsThrough.readAgain
    {ended : Bool}
    {before text : Text}
    {tokens : List Token}
    (hThrough : ReadsThrough ended before text tokens) :
    ∃ front place,
      tokens = front ++ [.endAt place] ∧ ReadAgain ended front := by
  induction hThrough with
  | done ended before =>
      exact ⟨[], .after before, rfl, .nil ended⟩
  | skip _ _ ih => exact ih
  | push hNext _ ih =>
      rcases ih with ⟨front, place, rfl, hAgain⟩
      exact
        ⟨_ :: front, place, rfl,
          .cons rfl
            (fun stop hStop => Lexeme.next_before_halt hNext hStop)
            hAgain⟩

------------------------------------------------------------
-- New Layouts
------------------------------------------------------------

namespace Layout

/-
  A layout puts the tokens of a script, but for the one that
  marks its end, between new gaps. Only the first gap and the
  last may be empty.
-/
structure Respaces
    (layout : Layout)
    (tokens : List Token) : Prop where
  tokens_eq : layout.tokens = tokens.dropLast
  spacing : ∀ entry ∈ layout.entries, IsSpacing entry.1
  apart : ∀ entry ∈ layout.entries.tail, entry.1 ≠ []
  lastSpacing : IsSpacing layout.lastGap

theorem spelled_cons
    (gap : Text)
    (token : Token)
    (entries : List (Text × Token)) :
    spelled ((gap, token) :: entries) =
      gap ++ (token.text ++ spelled entries) := by
  rw [spelled, List.flatMap_cons, ← spelled, List.append_assoc]

/- Tokens that are read again are scanned with gaps around them. -/
theorem scans_spelled
    {ended : Bool}
    {entries : List (Text × Token)}
    {lastGap : Text}
    (hAgain : ReadAgain ended (entries.map Prod.snd))
    (hSpacing : ∀ entry ∈ entries, IsSpacing entry.1)
    (hApart : ∀ entry ∈ entries.tail, entry.1 ≠ [])
    (hLast : IsSpacing lastGap) :
    ∃ endedAfter,
      Scans ended (spelled entries ++ lastGap)
        ((entries.map Prod.snd).map Token.symbol) endedAfter [] := by
  induction entries generalizing ended with
  | nil =>
      refine ⟨ended, ?_⟩
      have hScans : Scans ended (lastGap ++ []) [] ended [] :=
        hLast.scans
      rwa [List.append_nil] at hScans
  | cons entry entries ih =>
      rcases entry with ⟨gap, token⟩
      rw [List.forall_mem_cons] at hSpacing
      change ReadAgain ended (token :: entries.map Prod.snd) at hAgain
      cases hAgain with
      | @cons _ _ _ c more hText hToken hMore =>
          have hTail : ∀ entry ∈ entries.tail, entry.1 ≠ [] :=
            fun entry hMem => hApart entry (List.mem_of_mem_tail hMem)
          rcases ih hMore hSpacing.2 hTail with ⟨endedAfter, hScans⟩
          have hHalts : Text.Halts (spelled entries ++ lastGap) := by
            cases entries with
            | nil =>
                have hEnd : Text.Halts (lastGap ++ []) :=
                  hLast.halts fun _ d hMem => by cases hMem
                rwa [List.append_nil] at hEnd
            | cons next entries =>
                have hGap : next.1 ≠ [] :=
                  hApart next (List.mem_cons_self ..)
                rw [spelled_cons, List.append_assoc]
                exact (hSpacing.2 next (List.mem_cons_self ..)).halts
                  fun hNone => absurd hNone hGap
          have hSymbol :
              token.symbol =
                ⟨token.kind, c :: more, token.literal⟩ := by
            rw [Token.symbol, hText]
          refine ⟨endedAfter, ?_⟩
          rw [spelled_cons, hText, List.map_cons, List.map_cons,
            hSymbol, List.append_assoc, List.append_assoc]
          exact hSpacing.1.scans.trans
            ((Scans.of_next (hToken _ hHalts)).trans hScans)

/- Tokens in a new layout are the same tokens at other places. -/
theorem Respaces.tokenize
    {layout : Layout}
    {text : Text}
    {tokens : List Token}
    (hLayout : layout.Respaces tokens)
    (hTokens : ExperimentScript.tokenize text = .ok tokens) :
    ∃ others,
      ExperimentScript.tokenize layout.text = .ok others ∧
        others.map Token.symbol = tokens.map Token.symbol := by
  rcases (readsThrough_of_tokenize hTokens).readAgain with
    ⟨front, place, rfl, hAgain⟩
  have hFront : layout.tokens = front := by
    rw [hLayout.tokens_eq, List.dropLast_concat]
  rw [← hFront] at hAgain
  rcases scans_spelled hAgain hLayout.spacing hLayout.apart
      hLayout.lastSpacing with ⟨endedAfter, hScans⟩
  rcases hScans.tokenize with ⟨others, hOthers, hSymbols⟩
  refine ⟨others, hOthers, ?_⟩
  rw [hSymbols, ← hFront, List.map_append]
  rfl

end Layout

------------------------------------------------------------
-- Reading The Same
------------------------------------------------------------

/-
  Two scripts that are read alike: to trees that are the same
  but for their marks, or to errors of the same kind with the
  same message that expect the same.
-/
inductive ReadAlike :
    Except ScriptError (Node Span) →
      Except ScriptError (Node Span) → Prop where
  | tree
      {tree other : Node Span}
      (hTree : tree.unmark = other.unmark) :
      ReadAlike (.ok tree) (.ok other)
  | error
      {error other : SyntaxError}
      (hCause : error.cause = other.cause)
      (hMessage : error.message = other.message)
      (hExpected : error.expected = other.expected) :
      ReadAlike (.error (.syntactic error))
        (.error (.syntactic other))

/- All places moved to a single one. -/
def Move.toStart : Move where
  span := fun _ => .single .start
  through := fun _ _ => rfl

/- Tokens that differ in their places only are moved to the same. -/
theorem moved_toStart_of_symbols
    {tokens others : List Token}
    (hSymbols : tokens.map Token.symbol = others.map Token.symbol) :
    tokens.map (Token.moved Move.toStart.span) =
      others.map (Token.moved Move.toStart.span) := by
  have hPlaced :
      Token.moved Move.toStart.span =
        (fun symbol : Symbol =>
          Token.mk symbol.kind symbol.text (.single .start)
            symbol.literal) ∘ Token.symbol := rfl
  rw [hPlaced, ← List.map_map, ← List.map_map, hSymbols]

/- What is read of tokens does not depend on their places. -/
theorem scriptParts_of_symbols
    {tokens others : List Token}
    (hTokens : tokens ≠ [])
    (hOthers : others ≠ [])
    (hSymbols : tokens.map Token.symbol = others.map Token.symbol)
    (strict : Bool) :
    match scriptParts strict tokens, scriptParts strict others with
    | .ok (nodes, _), .ok (rest, _) =>
      Node.unmarkAll nodes = Node.unmarkAll rest
    | .error error, .error other =>
      error.cause = other.cause ∧
        error.message = other.message ∧
          error.expected = other.expected
    | _, _ => False := by
  have hParts := scriptParts_moved Move.toStart strict hTokens
  rw [moved_toStart_of_symbols hSymbols,
    scriptParts_moved Move.toStart strict hOthers] at hParts
  cases hFirst : scriptParts strict tokens with
  | error error =>
      cases hSecond : scriptParts strict others with
      | ok => simp only [hFirst, hSecond, reduceCtorEq] at hParts
      | error same =>
          simp only [hFirst, hSecond] at hParts
          have hError := Except.error.inj hParts
          have hMessage := congrArg SyntaxError.message hError
          rw [SyntaxError.message_moved, SyntaxError.message_moved]
            at hMessage
          exact
            ⟨(congrArg SyntaxError.cause hError).symm, hMessage.symm,
              (congrArg SyntaxError.expected hError).symm⟩
  | ok parts =>
      cases hSecond : scriptParts strict others with
      | error => simp only [hFirst, hSecond, reduceCtorEq] at hParts
      | ok same =>
          simp only [hFirst, hSecond] at hParts
          have hNodes :
              Node.movedAll Move.toStart.span same.1 =
                Node.movedAll Move.toStart.span parts.1 :=
            congrArg Prod.fst (Except.ok.inj hParts)
          have hUnmarked := congrArg Node.unmarkAll hNodes
          rw [Node.unmark_movedAll, Node.unmark_movedAll] at hUnmarked
          exact hUnmarked.symm

theorem readAlike_of_symbols
    {text other : Text}
    {tokens others : List Token}
    (hTokens : tokenize text = .ok tokens)
    (hOthers : tokenize other = .ok others)
    (hSymbols : tokens.map Token.symbol = others.map Token.symbol)
    (strict : Bool) :
    ReadAlike (parse strict text) (parse strict other) := by
  have hParts :=
    scriptParts_of_symbols (tokenize_ne_nil hTokens)
      (tokenize_ne_nil hOthers) hSymbols strict
  simp only [parse, hTokens, hOthers, parseTokens_eq]
  split at hParts
  case h_1 nodes _ rest _ hFirst hSecond =>
      rw [hFirst, hSecond]
      refine .tree ?_
      rw [Node.unmark, Node.unmark, hParts]
  case h_2 error other hFirst hSecond =>
      rw [hFirst, hSecond]
      exact .error hParts.1 hParts.2.1 hParts.2.2
  case h_3 => exact hParts.elim

/-
  Layout does not matter. The tokens of a script may be put
  between other gaps: they are read again as the same tokens,
  and they are parsed to the same tree or to an error that
  says the same.
-/
theorem readAlike_of_respaces
    {text : Text}
    {tokens : List Token}
    {layout : Layout}
    (hTokens : tokenize text = .ok tokens)
    (hLayout : layout.Respaces tokens) :
    ∃ others,
      tokenize layout.text = .ok others ∧
        others.map Token.symbol = tokens.map Token.symbol ∧
        ∀ strict,
          ReadAlike (parse strict text) (parse strict layout.text) := by
  rcases hLayout.tokenize hTokens with ⟨others, hOthers, hSymbols⟩
  exact
    ⟨others, hOthers, hSymbols,
      readAlike_of_symbols hTokens hOthers hSymbols.symm⟩

/- A sign that is no part of the number after it. -/
theorem readAlike_of_respaces_sign :
    ∃ tokens layout,
      tokenize "a-.5" = .ok tokens ∧
        Layout.Respaces layout tokens ∧
        layout.text = "a# one\n-\t.5\n" ∧
        ∃ others,
          tokenize layout.text = .ok others ∧
            others.map Token.symbol = tokens.map Token.symbol ∧
            ∀ strict,
              ReadAlike (parse strict "a-.5")
                (parse strict layout.text) := by
  have hTexts :
      (tokenize "a-.5").toOption.map
          (fun tokens => tokens.dropLast.map Token.text) =
        some [("a" : Text), "-", ".5"] := by
    decide +kernel
  cases hTokens : tokenize "a-.5" with
  | error error =>
      rw [hTokens] at hTexts
      cases hTexts
  | ok tokens =>
      rw [hTokens] at hTexts
      have hMap : tokens.dropLast.map Token.text = ["a", "-", ".5"] :=
        Option.some.inj hTexts
      have hLength : tokens.dropLast.length = 3 := by
        simpa using congrArg List.length hMap
      rcases List.length_eq_three.mp hLength with
        ⟨name, sign, number, hFront⟩
      rw [hFront] at hMap
      rcases List.cons.inj hMap with ⟨hName, hMore⟩
      rcases List.cons.inj hMore with ⟨hSign, hLast⟩
      have hNumber := (List.cons.inj hLast).1
      have hBody : CodePoint.char '\n' ∉ (" one" : Text) := by
        decide
      have hComment : IsSpacing ("# one\n" : Text) :=
        .comment hBody .nil
      have hTab : IsSpacing ("\t" : Text) := .blank (by decide) .nil
      have hFeed : IsSpacing ("\n" : Text) := .blank (by decide) .nil
      have hLayout :
          Layout.Respaces
            ⟨[([], name), ("# one\n", sign), ("\t", number)], "\n"⟩
            tokens :=
        { tokens_eq := hFront.symm
          spacing := by
            simp only [List.forall_mem_cons]
            exact ⟨.nil, hComment, hTab, by simp⟩
          apart := by
            simp only [List.tail_cons, List.forall_mem_cons]
            exact ⟨by decide, by decide, by simp⟩
          lastSpacing := hFeed }
      refine
        ⟨tokens, _, rfl, hLayout, ?_,
          readAlike_of_respaces hTokens hLayout⟩
      simp only [Layout.text, Layout.spelled, List.flatMap_cons,
        List.flatMap_nil, hName, hSign, hNumber]
      decide

end ExperimentScript
