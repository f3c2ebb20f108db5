import ExperimentScript.Proofs.Editor.Edit
import ExperimentScript.Text.Lines

/-
  Lines that are displayed, and lines between line feeds.

  A displayed line ends wherever a line feed is, and at other
  code points too. So the line of a place has the number that
  the line feeds before it give only if no displayed line has
  ended before it in another way; otherwise it comes as many
  lines later as there are such ends.

  Key definitions include:
    * `ExperimentScript.Text.frontLine`
    * `ExperimentScript.Text.backLine`
    * `ExperimentScript.Text.strayEnds`

  Main declarations:
    * `ExperimentScript.Text.lines_append`
    * `ExperimentScript.Text.lineAt?_place`
    * `ExperimentScript.Text.getElem?_splitOn_place`
-/

namespace ExperimentScript

namespace Text

------------------------------------------------------------
-- Lines Around A Place
------------------------------------------------------------

/- The front of a text up to its first end of a displayed line. -/
def frontLine (text : Text) : Text :=
  text.takeWhile fun c => !c.isLineEnd

/- The part of a text after its last end of a displayed line. -/
def backLine (text : Text) : Text :=
  text.rtakeWhile fun c => !c.isLineEnd

/-
  How many displayed lines end in a text otherwise than with a
  line feed, which may come after a carriage return.
-/
def strayEnds : Text → Nat
  | [] => 0
  | .char '\r' :: .char '\n' :: rest => strayEnds rest
  | c :: rest =>
    if c.isLineEnd ∧ c ≠ '\n' then strayEnds rest + 1
    else strayEnds rest

variable {front line text before after : Text}

/-
  What is after the last end is the last line, if what comes
  before it ends in one.
-/
theorem rtakeWhile_append
    {goesOn : CodePoint → Bool}
    (hFront : ∀ c ∈ front.getLast?, goesOn c = false)
    (hLine : ∀ c ∈ line, goesOn c = true) :
    (front ++ line).rtakeWhile goesOn = line := by
  rw [List.rtakeWhile, List.reverse_append,
    List.takeWhile_append_of_pos fun c hMem =>
      hLine c (List.mem_reverse.mp hMem)]
  rcases List.eq_nil_or_concat front with rfl | ⟨inner, c, rfl⟩
  · simp
  · rw [List.concat_eq_append] at hFront ⊢
    have hStop : goesOn c = false := hFront c (by simp)
    simp [hStop]

/- Every text is a text that ends in an end, and its last line. -/
theorem exists_lastLine
    (goesOn : CodePoint → Bool)
    (text : Text) :
    ∃ front,
      text = front ++ text.rtakeWhile goesOn ∧
        ∀ c ∈ front.getLast?, goesOn c = false := by
  refine
    ⟨text.rdropWhile goesOn,
      List.rdropWhile_append_rtakeWhile.symm, fun c hMem => ?_⟩
  rcases List.mem_getLast?_eq_getLast hMem with ⟨hSome, rfl⟩
  exact Bool.eq_false_iff.mpr (List.rdropWhile_last_not goesOn text hSome)

------------------------------------------------------------
-- Displayed Lines
------------------------------------------------------------

/- A text in which the last displayed line has ended. -/
def EndsShown (text : Text) : Prop :=
  ∀ c ∈ text.getLast?, c.isLineEnd = true

theorem EndsShown.tail
    {c : CodePoint}
    (hEnds : EndsShown (c :: text)) :
    EndsShown text := by
  cases text with
  | nil => exact nofun
  | cons d text => exact hEnds

theorem EndsShown.ne_nil
    {c : CodePoint}
    (hEnds : EndsShown (c :: text))
    (hOther : ¬ c.isLineEnd = true) :
    text ≠ [] := by
  rintro rfl
  exact hOther (hEnds c rfl)

/- The first displayed line, unless the text has none. -/
theorem head?_lines (text : Text) :
    (lines text).head? =
      if text = [] then none else some text.frontLine := by
  induction text using lines.induct with
  | case1 => rfl
  | case2 rest => rfl
  | case3 c rest hPair hEnd =>
      rw [lines.eq_3 _ _ hPair, if_pos hEnd, frontLine,
        List.takeWhile_cons_of_neg (by simp [hEnd])]
      rfl
  | case4 c rest hPair hOther ih =>
      rw [lines.eq_3 _ _ hPair, if_neg hOther, frontLine,
        List.takeWhile_cons_of_pos (by simp [hOther]),
        if_neg (List.cons_ne_nil c rest)]
      cases rest with
      | nil => rfl
      | cons d rest =>
          rw [if_neg (List.cons_ne_nil d rest)] at ih
          rcases List.head?_eq_some_iff.mp ih with ⟨more, hLines⟩
          rw [hLines]
          rfl

theorem exists_lines
    (hText : text ≠ []) :
    ∃ more, lines text = text.frontLine :: more := by
  have hHead := head?_lines text
  rw [if_neg hText] at hHead
  exact List.head?_eq_some_iff.mp hHead

/-
  A code point that a displayed line goes on with is part of
  the first one.
-/
theorem lines_cons
    {c : CodePoint}
    (hOther : ¬ c.isLineEnd = true)
    (text : Text) :
    lines (c :: text) = extendFirstLine c (lines text) := by
  rw [lines.eq_3, if_neg hOther]
  rintro rest rfl -
  exact hOther rfl

/- What is no pair at the end of a text is none before another one. -/
theorem not_pair_append
    {c : CodePoint}
    (hPair :
      ∀ more : Text, c = '\r' → front = .char '\n' :: more → False)
    (hText : ∀ d ∈ text.head?, d ≠ '\n') :
    ∀ more : Text,
      c = '\r' → front ++ text = .char '\n' :: more → False := by
  intro more hReturn hFeed
  cases front with
  | nil =>
      cases hFeed
      exact hText _ rfl rfl
  | cons d front =>
      cases hFeed
      exact hPair front hReturn rfl

/- A text that ends its last line is displayed before another one. -/
theorem lines_append
    (hFront : front.EndsShown)
    (hText : ∀ c ∈ text.head?, c ≠ '\n') :
    lines (front ++ text) = lines front ++ lines text := by
  induction front using lines.induct with
  | case1 => rfl
  | case2 rest ih =>
      simp only [List.cons_append, lines, ih hFront.tail.tail]
  | case3 c rest hPair hEnd ih =>
      rw [List.cons_append,
        lines.eq_3 _ _ (not_pair_append hPair hText),
        lines.eq_3 _ _ hPair, if_pos hEnd, if_pos hEnd,
        ih hFront.tail, List.cons_append]
  | case4 c rest hPair hOther ih =>
      rcases exists_lines (hFront.ne_nil hOther) with ⟨more, hLines⟩
      rw [List.cons_append, lines_cons hOther, lines_cons hOther,
        ih hFront.tail, hLines]
      rfl

/- Every end is that of one displayed line. -/
theorem length_lines
    (hFront : front.EndsShown) :
    (lines front).length =
      front.count (.char '\n') + front.strayEnds := by
  induction front using lines.induct with
  | case1 => rfl
  | case2 rest ih =>
      rw [lines, List.length_cons, ih hFront.tail.tail, strayEnds,
        List.count_cons_of_ne (by decide), List.count_cons_self]
      omega
  | case3 c rest hPair hEnd ih =>
      rw [lines.eq_3 _ _ hPair, if_pos hEnd, List.length_cons,
        ih hFront.tail, strayEnds.eq_3 _ _ hPair]
      by_cases hFeed : c = '\n'
      · rw [if_neg fun hStray => hStray.2 hFeed, hFeed,
          List.count_cons_self]
        omega
      · rw [if_pos ⟨hEnd, hFeed⟩, List.count_cons_of_ne hFeed]
        omega
  | case4 c rest hPair hOther ih =>
      rcases exists_lines (hFront.ne_nil hOther) with ⟨more, hLines⟩
      have hFeed : c ≠ '\n' := by
        rintro rfl
        exact hOther rfl
      have hLength := ih hFront.tail
      rw [hLines, List.length_cons] at hLength
      rw [lines_cons hOther, hLines, extendFirstLine,
        List.length_cons, hLength, strayEnds.eq_3 _ _ hPair,
        if_neg fun hStray => hOther hStray.1,
        List.count_cons_of_ne hFeed]

/- Ends are counted in one text after the other. -/
theorem strayEnds_append
    (front : Text)
    (hText : ∀ c ∈ text.head?, c ≠ '\n') :
    strayEnds (front ++ text) = strayEnds front + strayEnds text := by
  induction front using strayEnds.induct with
  | case1 => exact (Nat.zero_add _).symm
  | case2 rest ih => exact ih
  | case3 c rest hPair hStray ih =>
      rw [List.cons_append,
        strayEnds.eq_3 _ _ (not_pair_append hPair hText),
        strayEnds.eq_3 _ _ hPair, if_pos hStray, if_pos hStray, ih]
      omega
  | case4 c rest hPair hOther ih =>
      rw [List.cons_append,
        strayEnds.eq_3 _ _ (not_pair_append hPair hText),
        strayEnds.eq_3 _ _ hPair, if_neg hOther, if_neg hOther, ih]

/- Between line feeds all ends are stray ones. -/
theorem strayEnds_eq_zero_iff
    (hFeed : .char '\n' ∉ line) :
    line.strayEnds = 0 ↔ ∀ c ∈ line, c.isLineEnd = false := by
  induction line using strayEnds.induct with
  | case1 => exact iff_of_true rfl nofun
  | case2 rest =>
      exact absurd (List.mem_cons_of_mem _ List.mem_cons_self) hFeed
  | case3 c rest hPair hStray =>
      rw [strayEnds.eq_3 _ _ hPair, if_pos hStray]
      refine iff_of_false nofun fun hNone => ?_
      have hEnd := hNone c List.mem_cons_self
      rw [hStray.1] at hEnd
      cases hEnd
  | case4 c rest hPair hOther ih =>
      rw [List.mem_cons, not_or] at hFeed
      have hGoesOn : c.isLineEnd = false :=
        Bool.eq_false_iff.mpr fun hEnd =>
          hOther ⟨hEnd, Ne.symm hFeed.1⟩
      rw [strayEnds.eq_3 _ _ hPair, if_neg hOther, ih hFeed.2,
        List.forall_mem_cons]
      exact (and_iff_right hGoesOn).symm

theorem feed_not_mem
    (hLine : ∀ c ∈ line, c.isLineEnd = false) :
    .char '\n' ∉ line := by
  intro hMem
  cases hLine _ hMem

------------------------------------------------------------
-- The Displayed Line Of A Place
------------------------------------------------------------

/- What a displayed line goes on with is part of it. -/
theorem frontLine_append
    (hLine : ∀ c ∈ line, c.isLineEnd = false)
    (text : Text) :
    frontLine (line ++ text) = line ++ frontLine text :=
  List.takeWhile_append_of_pos fun c hMem => by
    rw [hLine c hMem]
    rfl

/- A line that goes on does not begin with a line feed. -/
theorem head_of_line
    (hLine : ∀ c ∈ line, c.isLineEnd = false)
    (hAfter : ∀ c ∈ after.head?, c.isLineEnd = false) :
    ∀ c ∈ (line ++ after).head?, c ≠ '\n' := by
  rintro c hMem rfl
  cases line with
  | nil => cases hAfter _ hMem
  | cons d line =>
      cases hMem
      cases hLine _ List.mem_cons_self

theorem mem_backLine (text : Text) :
    ∀ c ∈ text.backLine, c.isLineEnd = false := fun c hMem => by
  simpa using List.mem_rtakeWhile_imp hMem

/-
  The lines of a text are those that have ended before a place
  and those from the line of the place on. As many have ended
  as there are line feeds and stray ends.
-/
theorem exists_lines_place
    (before : Text) :
    ∃ ended,
      ended.length = before.count (.char '\n') + before.strayEnds ∧
        ∀ after : Text,
          (∀ c ∈ after.head?, c.isLineEnd = false) →
            lines (before ++ after) =
              ended ++ lines (before.backLine ++ after) := by
  rcases exists_lastLine (fun c => !c.isLineEnd) before with
    ⟨front, hBefore, hFront⟩
  change before = front ++ before.backLine at hBefore
  have hEnds : front.EndsShown := fun c hMem => by
    simpa using hFront c hMem
  have hLine := mem_backLine before
  generalize before.backLine = line at hBefore hLine ⊢
  subst hBefore
  have hFeed := feed_not_mem hLine
  have hHead : ∀ c ∈ line.head?, c ≠ '\n' := by
    simpa using head_of_line hLine (show ∀ c ∈ [].head?, _ from nofun)
  refine ⟨lines front, ?_, fun after hAfter => ?_⟩
  · rw [length_lines hEnds, List.count_append,
      strayEnds_append front hHead,
      (strayEnds_eq_zero_iff hFeed).mpr hLine,
      List.count_eq_zero_of_not_mem hFeed]
    rfl
  · rw [List.append_assoc,
      lines_append hEnds (head_of_line hLine hAfter)]

/- The displayed line of a place comes after those that have ended. -/
theorem lineAt?_place
    (before : Text)
    (hAfter : ∀ c ∈ after.head?, c.isLineEnd = false) :
    (before ++ after).lineAt?
        (before.count (.char '\n') + before.strayEnds + 1) =
      if before.backLine ++ after = [] then none
      else some (before.backLine ++ after.frontLine) := by
  rcases exists_lines_place before with ⟨ended, hLength, hLines⟩
  rw [lineAt?, hLines after hAfter, ← hLength,
    List.getElem?_append_right (Nat.le_refl _), Nat.sub_self,
    ← List.head?_eq_getElem?, head?_lines,
    frontLine_append (mem_backLine before)]

/- What comes after a line is at the column where the line ends. -/
theorem getElem?_takeWhile
    {goesOn : CodePoint → Bool}
    (line : Text)
    (hAfter : ∀ c ∈ after.head?, goesOn c = true) :
    (line ++ after.takeWhile goesOn)[line.length]? = after.head? := by
  rw [List.getElem?_append_right (Nat.le_refl _), Nat.sub_self]
  cases after with
  | nil => rfl
  | cons c after =>
      rw [List.takeWhile_cons_of_pos (hAfter c rfl)]
      rfl

theorem getElem?_place
    (line : Text)
    (hAfter : ∀ c ∈ after.head?, c.isLineEnd = false) :
    (line ++ after.frontLine)[line.length]? = after.head? :=
  getElem?_takeWhile line fun c hMem => by
    rw [hAfter c hMem]
    rfl

/-
  With a stray end before a place, the line of the place that
  the line feeds give is one that has ended before.
-/
theorem lineAt?_astray
    (hStray : before.strayEnds ≠ 0)
    (hAfter : ∀ c ∈ after.head?, c.isLineEnd = false) :
    (before ++ after).lineAt? (before.count (.char '\n') + 1) =
      before.lineAt? (before.count (.char '\n') + 1) := by
  rcases exists_lines_place before with ⟨ended, hLength, hLines⟩
  have hEnded : before.count (.char '\n') < ended.length := by
    omega
  have hBefore := hLines [] nofun
  rw [List.append_nil, List.append_nil] at hBefore
  rw [lineAt?, lineAt?, hLines after hAfter, hBefore,
    List.getElem?_append_left hEnded, List.getElem?_append_left hEnded]

/- The last line between line feeds comes after a line feed. -/
theorem exists_lastLine_feed (text : Text) :
    ∃ front,
      text = front ++ text.lastLine ∧
        .char '\n' ∉ text.lastLine ∧
        ∀ c ∈ front.getLast?, c = '\n' := by
  rcases exists_lastLine (· ≠ .char '\n') text with
    ⟨front, hText, hFront⟩
  refine ⟨front, hText, fun hMem => ?_, fun c hMem => ?_⟩
  · simpa using List.mem_rtakeWhile_imp hMem
  · simpa using hFront c hMem

/- Without a stray end both kinds of lines begin at the same place. -/
theorem backLine_eq_lastLine
    (hStray : text.strayEnds = 0) :
    text.backLine = text.lastLine := by
  rcases exists_lastLine_feed text with
    ⟨front, hText, hFeed, hFront⟩
  generalize text.lastLine = line at hText hFeed ⊢
  subst hText
  have hHead : ∀ c ∈ line.head?, c ≠ '\n' := by
    rintro c hMem rfl
    exact hFeed (List.mem_of_mem_head? hMem)
  rw [strayEnds_append front hHead, Nat.add_eq_zero_iff] at hStray
  have hLine := (strayEnds_eq_zero_iff hFeed).mp hStray.2
  refine rtakeWhile_append (fun c hMem => ?_) fun c hMem => ?_
  · rw [hFront c hMem]
    rfl
  · rw [hLine c hMem]
    rfl

------------------------------------------------------------
-- The Line Between Line Feeds
------------------------------------------------------------

/- The line between line feeds that goes on over a place. -/
def wholeLine (before after : Text) : Text :=
  before.lastLine ++ after.takeWhile (· ≠ .char '\n')

/- What has no line feed is before all of those in a text. -/
theorem takeWhile_feed_append
    (hFeed : .char '\n' ∉ line)
    (text : Text) :
    (line ++ text).takeWhile (· ≠ .char '\n') =
      line ++ text.takeWhile (· ≠ .char '\n') :=
  List.takeWhile_append_of_pos fun _ hMem =>
    decide_eq_true fun hSame => hFeed (hSame ▸ hMem)

/- What is before the first line feed is the first part. -/
theorem head?_splitOn (text : Text) :
    (text.splitOn '\n').head? =
      some (text.takeWhile (· ≠ .char '\n')) := by
  rw [splitOn_eq]
  by_cases hMem : .char '\n' ∈ text
  · rcases List.eq_append_cons_of_mem hMem with
      ⟨line, rest, rfl, hFeed⟩
    rw [List.splitOn_append_cons_self_of_not_mem hFeed,
      takeWhile_feed_append hFeed,
      List.takeWhile_cons_of_neg (by simp), List.append_nil]
    rfl
  · have hWhole := takeWhile_feed_append hMem []
    rw [List.append_nil, List.takeWhile_nil, List.append_nil] at hWhole
    rw [List.splitOn_eq_singleton hMem, hWhole]
    rfl

/- The line of a place is the part with the number of its line feeds. -/
theorem getElem?_splitOn_place (before after : Text) :
    ((before ++ after).splitOn '\n')[
        before.count (.char '\n')]? =
      some (wholeLine before after) := by
  rcases exists_lastLine_feed before with
    ⟨front, hBefore, hFeed, hFront⟩
  rw [wholeLine, ← takeWhile_feed_append hFeed, ← head?_splitOn]
  generalize before.lastLine = line at hBefore hFeed ⊢
  subst hBefore
  rw [List.count_append, List.count_eq_zero_of_not_mem hFeed,
    List.append_assoc]
  rcases List.eq_nil_or_concat front with rfl | ⟨inner, c, rfl⟩
  · rw [List.count_nil, List.nil_append, List.head?_eq_getElem?]
  · rw [List.concat_eq_append] at hFront ⊢
    rw [hFront c (by simp), List.append_assoc, List.singleton_append, splitOn_eq,
      List.splitOn_append_cons_self, ← splitOn_eq, ← splitOn_eq,
      List.count_append, List.count_cons_self, List.count_nil,
      List.getElem?_append_right, (Editor.splitOn_feed inner).1,
      List.head?_eq_getElem?]
    · simp
    · simp [(Editor.splitOn_feed inner).1]

theorem getElem?_wholeLine
    (before : Text)
    (hAfter : ∀ c ∈ after.head?, c ≠ '\n') :
    (wholeLine before after)[before.lastLine.length]? =
      after.head? :=
  getElem?_takeWhile before.lastLine fun c hMem =>
    decide_eq_true (hAfter c hMem)

/- The front of a line that is displayed goes on over the place. -/
theorem frontLine_wholeLine
    (hStray : before.strayEnds = 0)
    (after : Text) :
    (wholeLine before after).frontLine =
      before.backLine ++ after.frontLine := by
  have hLine := mem_backLine before
  rw [backLine_eq_lastLine hStray] at hLine ⊢
  have hTest (c : CodePoint) :
      decide ((!c.isLineEnd) = true ∧ decide (c ≠ '\n') = true) =
        !c.isLineEnd := by
    by_cases hFeed : c = '\n'
    · rw [hFeed]
      rfl
    · simp [hFeed]
  rw [wholeLine, frontLine_append hLine, frontLine,
    List.takeWhile_takeWhile, funext hTest, frontLine]

end Text

end ExperimentScript
