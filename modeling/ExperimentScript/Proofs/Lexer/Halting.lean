import ExperimentScript.Proofs.Lexer.Shortened

/-
  Lexemes end where blank space or a comment begins.

  Only strings go on over blank space and marks of comments,
  and a string ends with its closing quote whatever comes
  after it. Every other lexeme is read from what comes before
  the first of them. So a lexeme that gives a token is read
  again wherever it stands before a halt.

  Key definitions include:
    * `ExperimentScript.Text.Halts`

  Main declarations:
    * `ExperimentScript.Lexeme.next_halt`
    * `ExperimentScript.Lexeme.next_before_halt`
    * `ExperimentScript.Lexeme.next_before_feed`
-/

namespace ExperimentScript

------------------------------------------------------------
-- Halts
------------------------------------------------------------

namespace CodePoint

/- Whether a code point is blank or the mark of a comment. -/
def isHalt (c : CodePoint) : Bool :=
  c.isBlank || c = '#'

/- A halt differs from what is known to be none. -/
theorem ne_of_isHalt
    {c other : CodePoint}
    (hHalt : c.isHalt = true)
    (hOther : other.isHalt = false) :
    c ≠ other := by
  rintro rfl
  rw [hHalt] at hOther
  cases hOther

theorem continuesName_of_isHalt
    {c : CodePoint}
    (hHalt : c.isHalt = true) :
    c.continuesName = false := by
  cases hName : c.continuesName with
  | false => rfl
  | true =>
      rw [isHalt, Lexeme.isBlank_of_continuesName hName,
        Bool.false_or, decide_eq_true_eq] at hHalt
      subst hHalt
      cases hName

theorem isAsciiDigit_of_isHalt
    {c : CodePoint}
    (hHalt : c.isHalt = true) :
    c.isAsciiDigit = false := by
  have hName := continuesName_of_isHalt hHalt
  simp only [continuesName, Bool.or_eq_false_iff] at hName
  exact hName.1.2

/- What is in some ranges is in none of those apart from them. -/
theorem inRanges_of_apart
    {c : CodePoint}
    {ranges others : List (Nat × Nat)}
    (hRanges : inRanges ranges c = true)
    (hApart :
      ∀ range ∈ ranges, ∀ other ∈ others,
        range.2 < other.1 ∨ other.2 < range.1) :
    inRanges others c = false := by
  simp only [inRanges, List.any_eq_true, decide_eq_true_eq]
    at hRanges
  rcases hRanges with ⟨range, hRange, hFirst, hLast⟩
  rw [inRanges, List.any_eq_false]
  intro other hOther
  have hSides := hApart range hRange other hOther
  simp only [decide_eq_true_eq]
  omega

theorem isDigit_of_isHalt
    {c : CodePoint}
    (hHalt : c.isHalt = true) :
    c.isDigit = false := by
  rw [isHalt, Bool.or_eq_true, decide_eq_true_eq] at hHalt
  rcases hHalt with hBlank | rfl
  · exact inRanges_of_apart hBlank (by decide)
  · decide

end CodePoint

/- A text that is empty or begins with a halt. -/
def Text.Halts (text : Text) : Prop :=
  ∀ c ∈ text.head?, c.isHalt = true

namespace Lexeme

variable {ended : Bool}
variable {c : CodePoint}
variable {stop : Text}

------------------------------------------------------------
-- Numbers, Words And Signs
------------------------------------------------------------

/- What is taken as long as a test holds ends where the test fails. -/
theorem takeWhile_stop
    {test : CodePoint → Bool}
    (hStop : ∀ d ∈ stop.head?, test d = false)
    (text : Text) :
    (text ++ stop).takeWhile test = text.takeWhile test := by
  induction text with
  | nil =>
      cases stop with
      | nil => rfl
      | cons d stop =>
          simp [hStop d rfl]
  | cons d text ih =>
      simp only [List.cons_append, List.takeWhile_cons, ih]

section Halts

variable (hStop : stop.Halts) (text : Text)

include hStop

theorem digitAhead_halt :
    digitAhead (text ++ stop) = digitAhead text := by
  cases text with
  | cons d text => rfl
  | nil =>
      cases stop with
      | nil => rfl
      | cons d stop =>
          exact CodePoint.isDigit_of_isHalt (hStop d rfl)

theorem unsignedAhead_halt :
    unsignedAhead (text ++ stop) = unsignedAhead text := by
  cases text with
  | cons d text =>
      rw [List.cons_append, unsignedAhead, unsignedAhead,
        digitAhead_halt hStop]
  | nil =>
      cases stop with
      | nil => rfl
      | cons d stop =>
          have hPoint : d ≠ '.' :=
            CodePoint.ne_of_isHalt (hStop d rfl) (by decide)
          simp [unsignedAhead, hPoint,
            CodePoint.isDigit_of_isHalt (hStop d rfl)]

theorem numberAhead_halt :
    numberAhead ended c (text ++ stop) =
      numberAhead ended c text := by
  rw [numberAhead, numberAhead, ← List.cons_append,
    unsignedAhead_halt hStop, unsignedAhead_halt hStop]

theorem signPart_halt : signPart (text ++ stop) = signPart text := by
  cases text with
  | cons d text => rw [List.cons_append, signPart_cons, signPart_cons]
  | nil =>
      cases stop with
      | nil => rfl
      | cons d stop =>
          have hPlus : d ≠ '+' :=
            CodePoint.ne_of_isHalt (hStop d rfl) (by decide)
          have hMinus : d ≠ '-' :=
            CodePoint.ne_of_isHalt (hStop d rfl) (by decide)
          rw [List.nil_append, signPart_cons,
            if_neg (not_or.mpr ⟨hPlus, hMinus⟩)]
          rfl

/- The digits at the front of a text. -/
theorem takeWhile_digits_halt :
    (text ++ stop).takeWhile CodePoint.isAsciiDigit =
      text.takeWhile CodePoint.isAsciiDigit :=
  takeWhile_stop
    (fun d hMem => CodePoint.isAsciiDigit_of_isHalt (hStop d hMem))
    text

theorem fractionPart_halt :
    fractionPart (text ++ stop) = fractionPart text := by
  cases text with
  | cons d text =>
      rw [List.cons_append, fractionPart_cons, fractionPart_cons,
        takeWhile_digits_halt hStop]
  | nil =>
      cases stop with
      | nil => rfl
      | cons d stop =>
          have hPoint : d ≠ '.' :=
            CodePoint.ne_of_isHalt (hStop d rfl) (by decide)
          rw [List.nil_append, fractionPart_cons,
            if_neg fun hSome => hPoint hSome.1]
          rfl

theorem exponentPart_halt :
    exponentPart (text ++ stop) = exponentPart text := by
  cases text with
  | cons d text =>
      rw [List.cons_append, exponentPart_cons, exponentPart_cons,
        signPart_halt hStop,
        List.drop_append_of_le_length
          (isPrefix_signPart text).length_le,
        takeWhile_digits_halt hStop]
  | nil =>
      cases stop with
      | nil => rfl
      | cons d stop =>
          have hMark : ¬ (d = 'e' ∨ d = 'E') :=
            not_or.mpr
              ⟨CodePoint.ne_of_isHalt (hStop d rfl) (by decide),
                CodePoint.ne_of_isHalt (hStop d rfl) (by decide)⟩
          rw [List.nil_append, exponentPart_cons,
            if_neg fun hSome => hMark hSome.1]
          rfl

/- The longest number at the front of a text ends at a halt. -/
theorem numberPart?_halt :
    numberPart? (text ++ stop) = numberPart? text := by
  simp only [numberPart?, signPart_halt hStop]
  rw [List.drop_append_of_le_length
    (isPrefix_signPart text).length_le]
  generalize text.drop (signPart text).length = afterSign
  rw [takeWhile_digits_halt hStop,
    List.drop_append_of_le_length
      (List.takeWhile_prefix _).length_le]
  generalize
    afterSign.drop
      (afterSign.takeWhile CodePoint.isAsciiDigit).length =
        afterWhole
  rw [fractionPart_halt hStop,
    List.drop_append_of_le_length
      (isPrefix_fractionPart afterWhole).length_le,
    exponentPart_halt hStop]

theorem word_halt : word (text ++ stop) = word text := by
  rw [word, word,
    takeWhile_stop fun d hMem =>
      CodePoint.continuesName_of_isHalt (hStop d hMem)]

omit hStop in
/- A sign of two code points has no halt. -/
theorem isHalt_of_lookup
    {kind : TokenKind}
    (hLookup : TokenKind.longSigns.lookup text = some kind) :
    ∀ d ∈ text, d.isHalt = false := by
  have hLong :
      ∀ entry ∈ TokenKind.longSigns,
        ∀ d ∈ entry.1, d.isHalt = false := by
    decide
  exact hLong _ (mem_of_lookup hLookup)

/- No sign goes on with a halt. -/
theorem sign_halt : sign c (text ++ stop) = sign c text := by
  cases text with
  | cons d text => rfl
  | nil =>
      cases stop with
      | nil => rfl
      | cons d stop =>
          have hPair :
              TokenKind.longSigns.lookup [c, d] = none := by
            cases hLookup : TokenKind.longSigns.lookup [c, d] with
            | none => rfl
            | some kind =>
                have hOther :=
                  isHalt_of_lookup _ hLookup d (by simp)
                rw [hStop d rfl] at hOther
                cases hOther
          simp only [sign, List.nil_append, List.take_nil,
            List.take_succ_cons, List.take_zero, hPair,
            lookup_single c]

/- Neither a string nor blank space or a comment ends before a halt. -/
theorem next_halt
    (hDouble : c ≠ '"')
    (hSingle : c ≠ '\'')
    (hComment : c ≠ '#') :
    next ended c (text ++ stop) = next ended c text := by
  simp only [next, if_neg hDouble, if_neg hSingle, if_neg hComment,
    numberAhead_halt hStop, number, sign_halt hStop,
    ← List.cons_append, numberPart?_halt hStop, word_halt hStop]

end Halts

------------------------------------------------------------
-- Reading A Lexeme Again
------------------------------------------------------------

/- A lexeme that gives a token is read again before any halt. -/
theorem next_before_halt
    {more after : Text}
    {kind : TokenKind}
    {literal : Option Value}
    (hNext :
      next ended c (more ++ after) =
        .ok ⟨c :: more, some kind, literal⟩)
    (hStop : stop.Halts) :
    next ended c (more ++ stop) =
      .ok ⟨c :: more, some kind, literal⟩ := by
  by_cases hQuote : c = '"' ∨ c = '\''
  · exact next_quoted hQuote hNext rfl stop
  rcases not_or.mp hQuote with ⟨hDouble, hSingle⟩
  have hComment : c ≠ '#' := by
    rintro rfl
    cases congrArg Lexeme.kind (Except.ok.inj hNext)
  have hShorter :
      next ended c (more ++ []) = .ok ⟨c :: more, some kind, literal⟩ :=
    next_shorter hNext rfl
  rw [next_halt hStop more hDouble hSingle hComment]
  rwa [List.append_nil] at hShorter

/-
  What is read of a text that ends in a line feed is read of it
  wherever it comes first.
-/
theorem next_before_feed
    {rest : Text}
    {lexeme : Lexeme}
    (hNext : next ended c (rest ++ [.char '\n']) = .ok lexeme)
    (more : Text) :
    next ended c (rest ++ .char '\n' :: more) = .ok lexeme := by
  have hHalts (text : Text) : Text.Halts (.char '\n' :: text) := by
    intro d hMem
    cases hMem
    decide
  by_cases hQuote : c = '"' ∨ c = '\''
  · rcases (reads_of_next hNext).exists_after with
      ⟨written, after, hText, hRest⟩
    rw [hRest] at hNext
    have hAgain := next_quoted hQuote hNext hText (after ++ more)
    rw [← List.append_assoc, ← hRest, List.append_assoc] at hAgain
    exact hAgain
  rcases not_or.mp hQuote with ⟨hDouble, hSingle⟩
  by_cases hComment : c = '#'
  · subst hComment
    change Except.ok (comment (rest ++ [.char '\n'])) = .ok lexeme
      at hNext
    change Except.ok (comment (rest ++ .char '\n' :: more)) = .ok lexeme
    have hFeed (text : Text) :
        ∀ d ∈ (CodePoint.char '\n' :: text).head?,
          decide (d ≠ CodePoint.char '\n') = false := by
      intro d hMem
      cases hMem
      rfl
    rw [comment, takeWhile_stop (hFeed [])] at hNext
    rw [comment, takeWhile_stop (hFeed more)]
    exact hNext
  · rw [next_halt (hHalts []) rest hDouble hSingle hComment] at hNext
    rw [next_halt (hHalts more) rest hDouble hSingle hComment]
    exact hNext

end Lexeme

end ExperimentScript
