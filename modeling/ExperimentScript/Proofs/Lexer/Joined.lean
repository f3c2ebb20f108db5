import ExperimentScript.Proofs.Lexer.Halting
import ExperimentScript.Proofs.Lexer.Layout
import ExperimentScript.Proofs.Script.Moved

/-
  A script before another one.

  A text that is empty or ends a line is scanned the same
  wherever it comes first. What comes after it is scanned as
  by itself, some lines further down, if no operand has ended
  where the first text ends.

  Key definitions include:
    * `ExperimentScript.Point.down`
    * `ExperimentScript.Scan.down`
    * `ExperimentScript.Text.EndsLine`
    * `ExperimentScript.endedAfter`

  Main declarations:
    * `ExperimentScript.scanFrom_down`
    * `ExperimentScript.ReadsThrough.scanFrom_append`
    * `ExperimentScript.scan_append`
    * `ExperimentScript.tokenize_append`
-/

namespace ExperimentScript

------------------------------------------------------------
-- Lines Further Down
------------------------------------------------------------

/- The place a number of lines further down. -/
def Point.down
    (count : Nat)
    (point : Point) :
    Point :=
  ⟨point.line + count, point.col⟩

/- The span a number of lines further down. -/
def Span.down
    (count : Nat)
    (span : Span) :
    Span :=
  ⟨span.first.down count, span.last.down count⟩

/- Spans that are taken together are moved down together. -/
def Move.down (count : Nat) : Move where
  span := Span.down count
  through := fun _ _ => rfl

theorem Move.span_down (count : Nat) :
    (Move.down count).span = Span.down count := rfl

/- The same failure a number of lines further down. -/
def LexError.down
    (count : Nat)
    (error : LexError) :
    LexError :=
  ⟨error.cause, error.point.down count⟩

/- What was scanned, a number of lines further down. -/
def Scan.down
    (count : Nat)
    (scan : Scan) :
    Scan :=
  ⟨scan.tokens.map (Token.moved (Span.down count)),
    scan.failure.map (LexError.down count)⟩

namespace Point

variable (count : Nat) (point : Point)

theorem step_down (c : CodePoint) :
    (point.down count).step c = (point.step c).down count := by
  unfold step down
  split
  · simp only [Point.mk.injEq, and_true]
    omega
  · rfl

theorem advance_down (text : Text) :
    (point.down count).advance text =
      (point.advance text).down count := by
  induction text generalizing point with
  | nil => rfl
  | cons c text ih =>
      have hStep := ih (point.step c)
      rw [← step_down] at hStep
      exact hStep

end Point

theorem Scan.push_down
    (count : Nat)
    (scan : Scan)
    (point : Point)
    (lexeme : Lexeme) :
    (scan.down count).push (point.down count) lexeme =
      (scan.push point lexeme).down count := by
  unfold push
  split
  · rfl
  · rw [Point.advance_down]
    rfl

/- A text is scanned the same from a place further down. -/
theorem scanFrom_down
    (count : Nat)
    (ended : Bool)
    (point : Point)
    (text : Text) :
    scanFrom ended (point.down count) text =
      (scanFrom ended point text).down count := by
  induction ended, point, text using scanFrom.induct with
  | case1 ended point =>
      rw [scanFrom_nil, scanFrom_nil]
      rfl
  | case2 ended point c rest cause hNext =>
      rw [scanFrom_of_error hNext, scanFrom_of_error hNext]
      rfl
  | case3 ended point c rest lexeme hNext ih =>
      rw [scanFrom_of_next hNext, scanFrom_of_next hNext,
        Point.advance_down, ih, Scan.push_down]

------------------------------------------------------------
-- Texts That End A Line
------------------------------------------------------------

/- A text that is empty or ends with a line feed. -/
def Text.EndsLine (text : Text) : Prop :=
  ∀ c ∈ text.getLast?, c = '\n'

namespace Text.EndsLine

variable {text front after : Text}

/- What comes last in such a text is such a text. -/
theorem suffix
    (hEnds : Text.EndsLine (front ++ after)) :
    after.EndsLine := by
  intro c hMem
  refine hEnds c ?_
  rw [List.getLast?_append, Option.mem_def.mp hMem]
  rfl

theorem eq_concat
    (hEnds : text.EndsLine)
    (hText : text ≠ []) :
    ∃ front, text = front ++ [CodePoint.char '\n'] := by
  refine ⟨text.dropLast, ?_⟩
  have hLast : text.getLast hText = '\n' :=
    hEnds _ (List.getLast?_eq_some_getLast hText)
  rw [← hLast, List.dropLast_concat_getLast]

/- Where such a text ends, a new line begins. -/
theorem point_after
    (hEnds : text.EndsLine) :
    Point.after text =
      Point.start.down (text.count (CodePoint.char '\n')) := by
  have hLine : text.lastLine = [] := by
    rcases List.eq_nil_or_concat text with rfl | ⟨front, c, rfl⟩
    · rfl
    · rw [List.concat_eq_append] at hEnds ⊢
      have hFeed : c = '\n' := hEnds c (by simp)
      simp [Text.lastLine, hFeed]
  rw [Point.after, hLine, Point.down, Nat.add_comm]
  rfl

end Text.EndsLine

/- What is read of a text that ends a line is read with more after it. -/
theorem Lexeme.next_append
    {ended : Bool}
    {c : CodePoint}
    {rest : Text}
    {lexeme : Lexeme}
    (hEnds : Text.EndsLine (c :: rest))
    (hNext : next ended c rest = .ok lexeme)
    (more : Text) :
    next ended c (rest ++ more) = .ok lexeme := by
  by_cases hRest : rest = []
  · subst hRest
    have hFeed : c = '\n' := hEnds c rfl
    subst hFeed
    exact hNext
  · have hEndsRest : rest.EndsLine :=
      Text.EndsLine.suffix (show Text.EndsLine ([c] ++ rest) from hEnds)
    rcases hEndsRest.eq_concat hRest with ⟨front, rfl⟩
    rw [List.append_assoc]
    exact next_before_feed hNext more

------------------------------------------------------------
-- Scanning One Text After Another
------------------------------------------------------------

/- Whether an operand has ended after some tokens. -/
def endedAfter
    (ended : Bool)
    (tokens : List Token) :
    Bool :=
  tokens.foldl (fun _ token => token.kind.endsOperand) ended

/- What was scanned, with tokens in front of it. -/
def Scan.append
    (tokens : List Token)
    (scan : Scan) :
    Scan :=
  ⟨tokens ++ scan.tokens, scan.failure⟩

/- The first lexeme of a text that ends a line is scanned before more text. -/
theorem scanFrom_append_of_next
    {ended : Bool}
    {c : CodePoint}
    {written after : Text}
    {lexeme : Lexeme}
    (hEnds : Text.EndsLine (c :: (written ++ after)))
    (hNext : Lexeme.next ended c (written ++ after) = .ok lexeme)
    (hText : lexeme.text = c :: written)
    (before more : Text) :
    scanFrom ended (.after before) (c :: written ++ after ++ more) =
      (scanFrom (lexeme.endsOperand ended)
        (.after (before ++ c :: written)) (after ++ more)).push
          (.after before) lexeme := by
  have hDrop (rest : Text) :
      (written ++ rest).drop (lexeme.text.length - 1) = rest := by
    simp [hText]
  rw [List.cons_append, List.cons_append,
    scanFrom_of_next (Lexeme.next_append hEnds hNext more),
    List.append_assoc, hDrop, Point.after_advance, hText]

/-
  After a text that ends a line scanning goes on from where the
  text ends.
-/
theorem ReadsThrough.scanFrom_append
    {ended : Bool}
    {before head : Text}
    {tokens : List Token}
    (hThrough : ReadsThrough ended before head tokens)
    (hEnds : head.EndsLine) :
    ∃ front,
      tokens = front ++ [.endAt (.after (before ++ head))] ∧
        ∀ more,
          scanFrom ended (.after before) (head ++ more) =
            (scanFrom (endedAfter ended front)
              (.after (before ++ head)) more).append front := by
  induction hThrough with
  | done ended before =>
      rw [List.append_nil]
      exact ⟨[], rfl, fun _ => rfl⟩
  | skip hNext _ ih =>
      rcases ih hEnds.suffix with ⟨front, hTokens, hMore⟩
      rw [List.append_assoc] at hTokens hMore
      refine ⟨front, hTokens, fun more => ?_⟩
      rw [scanFrom_append_of_next hEnds hNext rfl, Lexeme.endsOperand,
        hMore]
      rfl
  | push hNext _ ih =>
      rcases ih hEnds.suffix with ⟨front, rfl, hMore⟩
      rw [List.append_assoc] at hMore ⊢
      refine ⟨_ :: front, rfl, fun more => ?_⟩
      rw [scanFrom_append_of_next hEnds hNext rfl, Lexeme.endsOperand,
        hMore, Scan.push, Point.after_advance]
      rfl

/-
  A script that ends a line and whose last token completes no
  operand is scanned before another one, and the other one as
  many lines further down.
-/
theorem scan_append
    {head : Text}
    {tokens : List Token}
    (hEnds : head.EndsLine)
    (hTokens : tokenize head = .ok tokens)
    (hLast :
      ∀ token ∈ tokens.dropLast.getLast?,
        token.kind.endsOperand = false)
    (text : Text) :
    scan (head ++ text) =
      ((scan text).down (head.count (.char '\n'))).append
        tokens.dropLast := by
  rcases (readsThrough_of_tokenize hTokens).scanFrom_append hEnds
    with ⟨front, rfl, hMore⟩
  rw [List.dropLast_concat] at hLast ⊢
  have hEnded : endedAfter false front = false := by
    rcases List.eq_nil_or_concat front with rfl | ⟨before, last, rfl⟩
    · rfl
    · rw [List.concat_eq_append] at hLast ⊢
      rw [endedAfter, List.foldl_concat]
      exact hLast last (by simp)
  have hScan : scan (head ++ text) = _ := hMore text
  rw [hScan, hEnded, List.nil_append, hEnds.point_after, scanFrom_down]
  rfl

/- The tokens of a script come before those of the other one. -/
theorem tokenize_append
    {head : Text}
    {tokens : List Token}
    (hEnds : head.EndsLine)
    (hTokens : tokenize head = .ok tokens)
    (hLast :
      ∀ token ∈ tokens.dropLast.getLast?,
        token.kind.endsOperand = false)
    (text : Text) :
    tokenize (head ++ text) =
      match tokenize text with
      | .ok others =>
        .ok (tokens.dropLast ++
          others.map
            (Token.moved (Span.down (head.count (.char '\n')))))
      | .error error =>
        .error (error.down (head.count (.char '\n'))) := by
  have hScan := scan_append hEnds hTokens hLast text
  simp only [tokenize, hScan]
  rcases scan text with ⟨others, failure⟩
  cases failure <;> rfl

end ExperimentScript
