import Mathlib.Order.Defs.LinearOrder
import ExperimentScript.Proofs.Lexer.Layout

/-
  What of a script stands where.

  Places are ordered as they are passed in a text: by lines,
  and in a line by columns. The part of a text that a span
  covers is what stands at the places in it. For a token that
  is its own text, and the tokens of a script come in the
  order of their places.

  Key definitions include:
    * `ExperimentScript.Text.select`
    * `ExperimentScript.Text.within`
    * `ExperimentScript.Token.StandsAt`
    * `ExperimentScript.Token.Ordered`
    * `ExperimentScript.Text.HasTokens`

  Main declarations:
    * `ExperimentScript.Text.select_eq`
    * `ExperimentScript.Token.StandsAt.within_eq`
    * `ExperimentScript.Layout.EachFrom.ordered`
    * `ExperimentScript.hasTokens_of_tokenize`
-/

namespace ExperimentScript

------------------------------------------------------------
-- The Order Of Places
------------------------------------------------------------

namespace Point

/- A place comes before those of later lines and those further in its own. -/
instance : LT Point where
  lt point other :=
    point.line < other.line ∨
      point.line = other.line ∧ point.col < other.col

instance : LE Point where
  le point other :=
    point.line < other.line ∨
      point.line = other.line ∧ point.col ≤ other.col

theorem lt_iff (point other : Point) :
    point < other ↔
      point.line < other.line ∨
        point.line = other.line ∧ point.col < other.col :=
  Iff.rfl

theorem le_iff (point other : Point) :
    point ≤ other ↔
      point.line < other.line ∨
        point.line = other.line ∧ point.col ≤ other.col :=
  Iff.rfl

instance (point other : Point) : Decidable (point ≤ other) :=
  inferInstanceAs (Decidable (_ ∨ _ ∧ _))

instance (point other : Point) : Decidable (point < other) :=
  inferInstanceAs (Decidable (_ ∨ _ ∧ _))

instance : LinearOrder Point where
  le_refl point := by
    rw [le_iff]
    omega
  le_trans point middle other := by
    simp only [le_iff]
    omega
  lt_iff_le_not_ge point other := by
    simp only [lt_iff, le_iff]
    omega
  le_antisymm point other := by
    rcases point with ⟨line, col⟩
    rcases other with ⟨line', col'⟩
    simp only [le_iff, mk.injEq]
    omega
  le_total point other := by
    simp only [le_iff]
    omega
  toDecidableLE := inferInstance
  toDecidableLT := inferInstance

theorem lt_step
    (point : Point)
    (c : CodePoint) :
    point < point.step c := by
  rw [lt_iff, step]
  split <;> simp

/- Within a line the next place is right after a place. -/
theorem le_iff_lt_step
    {point other : Point}
    {c : CodePoint}
    (hFeed : c ≠ '\n') :
    point ≤ other ↔ point < other.step c := by
  rw [le_iff, lt_iff, step, if_neg hFeed]
  simp only [Nat.lt_succ_iff]

theorem le_advance
    (point : Point)
    (text : Text) :
    point ≤ point.advance text := by
  induction text generalizing point with
  | nil => exact le_rfl
  | cons c text ih => exact (lt_step point c).le.trans (ih _)

theorem lt_advance
    {text : Text}
    (hText : text ≠ [])
    (point : Point) :
    point < point.advance text := by
  rcases List.exists_cons_of_ne_nil hText with ⟨c, rest, rfl⟩
  exact (lt_step point c).trans_le (le_advance _ rest)

theorem after_le_append (before text : Text) :
    after before ≤ after (before ++ text) := by
  rw [← after_advance]
  exact le_advance _ _

theorem after_lt_append
    {text : Text}
    (hText : text ≠ [])
    (before : Text) :
    after before < after (before ++ text) := by
  rw [← after_advance]
  exact lt_advance hText _

/- What is before the end of a text is not after its last place. -/
theorem le_last_of_lt
    {point : Point}
    {text : Text}
    (hPoint : point < after text) :
    point ≤ (after text).last := by
  rw [lt_iff] at hPoint
  simp only [le_iff, last]
  omega

theorem start_le_last (text : Text) :
    start ≤ (after text).last := by
  simp only [le_iff, last, start, after]
  omega

/- Without a line feed only the column goes on, by one for each code point. -/
theorem after_append_solid
    {text : Text}
    (hSolid : Lexeme.IsSolid text)
    (before : Text) :
    after (before ++ text) =
      ⟨(after before).line, (after before).col + text.length⟩ := by
  induction text using List.reverseRecOn with
  | nil => rw [List.append_nil]; rfl
  | append_singleton text c ih =>
      have hFeed : c ≠ '\n' := by
        rintro rfl
        cases hSolid (.char '\n') (by simp)
      rw [← List.append_assoc, after_concat, step, if_neg hFeed,
        ih fun d hMem => hSolid d (List.mem_append_left _ hMem),
        List.length_append, ← Nat.add_assoc]
      rfl

/- The last place of a text that ends in no line feed is right before its end. -/
theorem after_eq_last
    {text : Text}
    (hText : text ≠ [])
    (hFeed : ∀ c ∈ text.getLast?, c ≠ '\n')
    (before : Text) :
    after (before ++ text) =
      ⟨(after (before ++ text)).last.line,
        (after (before ++ text)).last.col + 1⟩ := by
  have hLast : text.getLast hText ≠ '\n' :=
    hFeed _ (List.getLast?_eq_some_getLast hText)
  rw [last_after hText hFeed]
  conv_lhs =>
    rw [← List.dropLast_concat_getLast hText, ← List.append_assoc,
      after_concat, step, if_neg hLast]

theorem last_lt_after
    {text : Text}
    (hText : text ≠ [])
    (hFeed : ∀ c ∈ text.getLast?, c ≠ '\n')
    (before : Text) :
    (after (before ++ text)).last < after (before ++ text) := by
  rw [last_after hText hFeed]
  conv_rhs =>
    rw [← List.dropLast_concat_getLast hText, ← List.append_assoc]
  exact after_lt_append (List.cons_ne_nil _ _) _

end Point

------------------------------------------------------------
-- Parts Of Texts
------------------------------------------------------------

namespace Text

variable {inside : Point → Bool}
variable {point : Point}
variable {text : Text}

/- What of a text, from a place on, stands at some places. -/
def select (inside : Point → Bool) : Point → Text → Text
  | _, [] => []
  | point, c :: text =>
    if inside point then c :: select inside (point.step c) text
    else select inside (point.step c) text

/- What of a text stands in a span. -/
def within (text : Text) (span : Span) : Text :=
  select
    (fun point => decide (span.first ≤ point ∧ point ≤ span.last))
    .start text

theorem select_append (text more : Text) :
    select inside point (text ++ more) =
      select inside point text ++
        select inside (point.advance text) more := by
  induction text generalizing point with
  | nil => rfl
  | cons c text ih =>
      rw [List.cons_append, select, select, ih]
      split <;> rfl

theorem select_eq_self
    (hInside :
      ∀ other, point ≤ other → other < point.advance text →
        inside other = true) :
    select inside point text = text := by
  induction text generalizing point with
  | nil => rfl
  | cons c text ih =>
      have hHere :=
        hInside point le_rfl (Point.lt_advance (by simp) point)
      rw [select, if_pos hHere, ih]
      intro other hOther
      exact hInside other ((Point.lt_step point c).le.trans hOther)

theorem select_eq_nil
    (hOutside :
      ∀ other, point ≤ other → other < point.advance text →
        inside other = false) :
    select inside point text = [] := by
  induction text generalizing point with
  | nil => rfl
  | cons c text ih =>
      have hHere :=
        hOutside point le_rfl (Point.lt_advance (by simp) point)
      rw [select, hHere, if_neg Bool.false_ne_true, ih]
      intro other hOther
      exact hOutside other ((Point.lt_step point c).le.trans hOther)

/- The places from the end of one text to that of a longer one hold the rest. -/
theorem select_eq
    {before middle : Text}
    (hInside :
      ∀ point,
        inside point = true ↔
          .after before ≤ point ∧ point < .after (before ++ middle))
    (rest : Text) :
    select inside .start (before ++ (middle ++ rest)) = middle := by
  have hBefore : Point.start.advance before = .after before :=
    Point.after_advance [] before
  have hNone : select inside .start before = [] := by
    apply select_eq_nil
    intro point _ hPoint
    rw [Bool.eq_false_iff, Ne, hInside]
    rw [hBefore] at hPoint
    exact fun hBoth => absurd hPoint hBoth.1.not_gt
  have hMiddle : select inside (.after before) middle = middle := by
    apply select_eq_self
    intro point hFirst hPoint
    rw [Point.after_advance] at hPoint
    exact (hInside point).mpr ⟨hFirst, hPoint⟩
  have hRest :
      select inside (.after (before ++ middle)) rest = [] := by
    apply select_eq_nil
    intro point hPoint _
    rw [Bool.eq_false_iff, Ne, hInside]
    exact fun hBoth => absurd hBoth.2 hPoint.not_gt
  rw [select_append, select_append, hNone, hBefore, hMiddle,
    Point.after_advance, hRest, List.nil_append, List.append_nil]

end Text

------------------------------------------------------------
-- Tokens In Their Places
------------------------------------------------------------

namespace Token

/-
  A token stands after a text: its span goes from the place of
  its first code point to that of the last one, which is no
  line feed.
-/
structure StandsAt
    (before : Text)
    (token : Token) : Prop where
  ne_nil : token.text ≠ []
  first_eq : token.span.first = .after before
  last_eq :
    token.span.last = .after (before ++ token.text.dropLast)
  not_feed : ∀ c ∈ token.text.getLast?, c ≠ '\n'

/- Tokens come one after the other, each not ending before it begins. -/
structure Ordered (tokens : List Token) : Prop where
  forward : ∀ token ∈ tokens, token.span.first ≤ token.span.last
  apart :
    tokens.Pairwise fun token other =>
      token.span.last < other.span.first

theorem Ordered.of_infix
    {tokens run : List Token}
    (hOrdered : Ordered tokens)
    (hRun : run <:+: tokens) :
    Ordered run where
  forward token hMem := hOrdered.forward token (hRun.subset hMem)
  apart := hOrdered.apart.sublist hRun.sublist

namespace StandsAt

variable {before : Text}
variable {token : Token}

/- Up to the last place of a token is before what comes after it. -/
theorem le_last_iff
    (hStands : token.StandsAt before)
    (point : Point) :
    point ≤ token.span.last ↔
      point < .after (before ++ token.text) := by
  have hFeed :=
    hStands.not_feed _
      (List.getLast?_eq_some_getLast hStands.ne_nil)
  have hText :=
    List.dropLast_concat_getLast hStands.ne_nil
  rw [hStands.last_eq, Point.le_iff_lt_step hFeed,
    ← Point.after_concat, List.append_assoc, hText]

theorem last_lt (hStands : token.StandsAt before) :
    token.span.last < .after (before ++ token.text) :=
  (hStands.le_last_iff _).mp le_rfl

theorem first_le_last (hStands : token.StandsAt before) :
    token.span.first ≤ token.span.last := by
  rw [hStands.first_eq, hStands.last_eq]
  exact Point.after_le_append _ _

/- What stands at the span of a token is the text of the token. -/
theorem within_eq
    (hStands : token.StandsAt before)
    (rest : Text) :
    Text.within (before ++ (token.text ++ rest)) token.span =
      token.text := by
  apply Text.select_eq
  intro point
  rw [decide_eq_true_iff, hStands.le_last_iff, hStands.first_eq]

end StandsAt

end Token

namespace Layout

variable {before gap lastGap rest : Text}
variable {token : Token}
variable {entries : List (Text × Token)}

theorem IsEntry.standsAt
    (hEntry : IsEntry before gap token rest) :
    token.StandsAt (before ++ gap) where
  ne_nil := hEntry.spans.1
  first_eq := hEntry.spans.2.1
  last_eq := hEntry.spans.2.2
  not_feed := by
    rcases hEntry.read with ⟨c, more, _, hReads⟩
    rintro c hMem rfl
    cases (hReads.hasSolidEnds rfl).2 _ hMem

/- Entries after each other go on where those before them end. -/
theorem EachFrom.append_iff
    {good : Text → Text → Token → Text → Prop}
    {others : List (Text × Token)} :
    EachFrom good lastGap before (entries ++ others) ↔
      EachFrom good (spelled others ++ lastGap) before entries ∧
        EachFrom good lastGap (before ++ spelled entries) others := by
  induction entries generalizing before with
  | nil => simp [EachFrom, spelled]
  | cons entry entries ih =>
      rw [List.cons_append, EachFrom, EachFrom, ih, and_assoc]
      simp [spelled]

/- Each token of a layout is at its place in the text. -/
theorem EachFrom.exists_standsAt
    (hEach : EachFrom IsEntry lastGap before entries)
    (hMem : token ∈ entries.map Prod.snd) :
    ∃ front back,
      before ++ (spelled entries ++ lastGap) =
          front ++ (token.text ++ back) ∧
        token.StandsAt front := by
  rcases List.mem_map.mp hMem with ⟨⟨gap, token⟩, hEntry, rfl⟩
  rcases List.mem_iff_append.mp hEntry with ⟨earlier, later, rfl⟩
  rcases (EachFrom.append_iff.mp hEach).2 with ⟨hHere, -⟩
  refine ⟨_, spelled later ++ lastGap, ?_, hHere.standsAt⟩
  simp [spelled]

/- The tokens of a layout lie in order between its ends. -/
theorem EachFrom.ordered
    (hEach : EachFrom IsEntry lastGap before entries) :
    Token.Ordered (entries.map Prod.snd) ∧
      ∀ token ∈ entries.map Prod.snd,
        .after before ≤ token.span.first ∧
          token.span.last < .after (before ++ spelled entries) := by
  induction entries generalizing before with
  | nil => exact ⟨⟨by simp, .nil⟩, by simp⟩
  | cons entry entries ih =>
      rcases entry with ⟨gap, token⟩
      rcases hEach with ⟨hEntry, hRest⟩
      have hStands := hEntry.standsAt
      rcases ih hRest with ⟨hOrdered, hBetween⟩
      have hFirst : .after before ≤ token.span.first := by
        rw [hStands.first_eq]
        exact Point.after_le_append before gap
      have hAll :
          before ++ spelled ((gap, token) :: entries) =
            before ++ gap ++ token.text ++ spelled entries := by
        simp [spelled]
      have hLater :
          Point.after (before ++ gap ++ token.text) ≤
            .after (before ++ spelled ((gap, token) :: entries)) := by
        rw [hAll]
        exact Point.after_le_append _ _
      constructor
      · constructor
        · exact List.forall_mem_cons.mpr
            ⟨hStands.first_le_last, hOrdered.forward⟩
        · refine .cons ?_ hOrdered.apart
          intro other hMem
          exact hStands.last_lt.trans_le (hBetween other hMem).1
      · refine List.forall_mem_cons.mpr
          ⟨⟨hFirst, hStands.last_lt.trans_le hLater⟩, ?_⟩
        intro other hMem
        rw [hAll]
        refine ⟨?_, (hBetween other hMem).2⟩
        exact
          (hFirst.trans hStands.first_le_last).trans
            (hStands.last_lt.le.trans (hBetween other hMem).1)

end Layout

------------------------------------------------------------
-- The Tokens Of A Text
------------------------------------------------------------

/-
  Tokens before the end of a text stand in it where their
  spans say, one after the other.
-/
structure Text.HasTokens
    (text : Text)
    (tokens : List Token) : Prop where
  kind_ne : ∀ token ∈ tokens, token.kind ≠ .endOfInput
  ordered : Token.Ordered tokens
  between :
    ∀ token ∈ tokens,
      .start ≤ token.span.first ∧ token.span.last < .after text
  standsAt :
    ∀ token ∈ tokens,
      ∃ front back,
        text = front ++ (token.text ++ back) ∧
          token.StandsAt front

/- What is read of a text stands in it, and the end after it. -/
theorem hasTokens_of_tokenize
    {text : Text}
    {tokens : List Token}
    {close : Token}
    (hTokens : tokenize text = .ok (tokens ++ [close])) :
    text.HasTokens tokens ∧ close = .endAt (.after text) := by
  rcases exists_read_of_tokenize hTokens with ⟨layout, hLayout⟩
  rcases List.append_inj' hLayout.tokens_eq rfl with ⟨rfl, hClose⟩
  rcases hLayout.entries.ordered with ⟨hOrdered, hBetween⟩
  have hEnd :
      Point.after ([] ++ Layout.spelled layout.entries) ≤
        .after text := by
    rw [← hLayout.text_eq]
    exact Point.after_le_append _ _
  refine ⟨?_, (List.cons.inj hClose).1⟩
  exact
    { kind_ne := hLayout.describes.kind_ne
      ordered := hOrdered
      between := fun token hMem =>
        ⟨(hBetween token hMem).1,
          (hBetween token hMem).2.trans_le hEnd⟩
      standsAt := by
        intro token hMem
        rw [← hLayout.text_eq]
        exact hLayout.entries.exists_standsAt hMem }

namespace Text.HasTokens

variable {text : Text}
variable {tokens run : List Token}

/- A run of the tokens of a text stands in it. -/
theorem of_run
    (hTokens : text.HasTokens tokens)
    (hRun : run <:+: tokens) :
    text.HasTokens run where
  kind_ne token hMem := hTokens.kind_ne token (hRun.subset hMem)
  ordered := hTokens.ordered.of_infix hRun
  between token hMem := hTokens.between token (hRun.subset hMem)
  standsAt token hMem := hTokens.standsAt token (hRun.subset hMem)

/- At the span of a token of a text stands the text of the token. -/
theorem within_eq
    {token : Token}
    (hTokens : text.HasTokens tokens)
    (hMem : token ∈ tokens) :
    text.within token.span = token.text := by
  rcases hTokens.standsAt token hMem with ⟨front, back, rfl, hStands⟩
  exact hStands.within_eq back

end Text.HasTokens

end ExperimentScript
