import ExperimentScript.Proofs.Lexer.Excerpt
import ExperimentScript.Proofs.Lexer.Joined
import ExperimentScript.Proofs.Lexer.Places
import ExperimentScript.Proofs.Number.Longest

/-
  Where reading stops, no lexeme can be read.

  What stands at such a place is a quote that is never closed,
  a number that is none or has no value, or a code point with
  which nothing begins. Everything before it is read as if the
  text ended there: the tokens up to the place are those of
  the text before it.

  Key definitions include:
    * `ExperimentScript.Lexeme.IsClosed`
    * `ExperimentScript.Lexeme.BeginsNothing`
    * `ExperimentScript.Lexeme.Unreadable`

  Main declarations:
    * `ExperimentScript.Lexeme.next_eq_error_iff`
    * `ExperimentScript.exists_stop_of_scanFrom`
    * `ExperimentScript.stops_of_tokenize`
-/

namespace ExperimentScript

namespace Lexeme

variable {ended : Bool}
variable {c : CodePoint}
variable {rest text : Text}

------------------------------------------------------------
-- Quotes That Are Never Closed
------------------------------------------------------------

/- What comes after an opening double quote has the closing one. -/
def IsClosed (rest : Text) : Prop :=
  ∃ written, StringBody written ∧ written <+: rest

theorem not_isClosed_nil : ¬ IsClosed [] := by
  rintro ⟨written, hBody, hFront⟩
  rw [List.prefix_nil.mp hFront] at hBody
  cases hBody

theorem isClosed_quote (rest : Text) :
    IsClosed (.char '"' :: rest) :=
  ⟨_, .close, List.prefix_append [_] rest⟩

theorem not_isClosed_stroke : ¬ IsClosed [.char '\\'] := by
  rintro ⟨written, hBody, hFront⟩
  cases hBody with
  | close => cases (List.cons_prefix_cons.mp hFront).1
  | escape e hMore => exact absurd hFront.length_le (by simp)
  | verbatim hQuote hStroke =>
      exact absurd (List.cons_prefix_cons.mp hFront).1 hStroke

/- After a stroke no code point closes a string. -/
theorem isClosed_escape (e : CodePoint) (rest : Text) :
    IsClosed (.char '\\' :: e :: rest) ↔ IsClosed rest := by
  constructor
  · rintro ⟨written, hBody, hFront⟩
    cases hBody with
    | close => cases (List.cons_prefix_cons.mp hFront).1
    | escape other hMore =>
        rw [List.cons_prefix_cons, List.cons_prefix_cons] at hFront
        exact ⟨_, hMore, hFront.2.2⟩
    | verbatim hQuote hStroke =>
        exact absurd (List.cons_prefix_cons.mp hFront).1 hStroke
  · rintro ⟨written, hBody, hFront⟩
    exact
      ⟨_, .escape e hBody, List.cons_prefix_cons.mpr
        ⟨rfl, List.cons_prefix_cons.mpr ⟨rfl, hFront⟩⟩⟩

/- What is neither a quote nor a stroke does not close it either. -/
theorem isClosed_verbatim
    (hQuote : c ≠ '"')
    (hStroke : c ≠ '\\')
    (rest : Text) :
    IsClosed (c :: rest) ↔ IsClosed rest := by
  constructor
  · rintro ⟨written, hBody, hFront⟩
    cases hBody with
    | close =>
        exact absurd (List.cons_prefix_cons.mp hFront).1.symm hQuote
    | escape e hMore =>
        exact absurd (List.cons_prefix_cons.mp hFront).1.symm hStroke
    | verbatim _ _ hMore =>
        exact ⟨_, hMore, (List.cons_prefix_cons.mp hFront).2⟩
  · rintro ⟨written, hBody, hFront⟩
    exact
      ⟨_, .verbatim hQuote hStroke hBody,
        List.cons_prefix_cons.mpr ⟨rfl, hFront⟩⟩

theorem isClosed_digit
    (hDigit : c.hexValue?.isSome = true)
    (rest : Text) :
    IsClosed (c :: rest) ↔ IsClosed rest :=
  isClosed_verbatim (ne_of_isSome_hexValue? hDigit).1
    (ne_of_isSome_hexValue? hDigit).2 rest

/- A string is read if its closing quote is there, and only then. -/
theorem doubleQuoted?_eq_none_iff :
    doubleQuoted? rest = none ↔ ¬ IsClosed rest := by
  induction rest using doubleQuoted?.induct with
  | case1 => exact iff_of_true rfl not_isClosed_nil
  | case2 rest =>
      exact iff_of_false (Option.some_ne_none _)
        (not_not_intro (isClosed_quote rest))
  | case3 h₁ h₂ h₃ h₄ rest c hEscape ih =>
      have hDigits := isSome_of_hexEscape? hEscape
      simp only [List.forall_mem_cons] at hDigits
      rcases hDigits with ⟨hFirst, hSecond, hThird, hFourth, -⟩
      simp only [doubleQuoted?, hEscape, Option.map_eq_none_iff]
      rw [isClosed_escape, isClosed_digit hFirst,
        isClosed_digit hSecond, isClosed_digit hThird,
        isClosed_digit hFourth]
      exact ih
  | case4 h₁ h₂ h₃ h₄ rest hEscape ih =>
      simp only [doubleQuoted?, hEscape, Option.map_eq_none_iff]
      rw [isClosed_escape]
      exact ih
  | case5 e rest hOther ih =>
      rw [doubleQuoted?.eq_4 _ _ hOther, Option.map_eq_none_iff,
        isClosed_escape]
      exact ih
  | case6 =>
      rw [doubleQuoted?]
      exact iff_of_true rfl not_isClosed_stroke
  | case7 c rest hQuote hLong hShort hLone ih =>
      have hStroke : c ≠ '\\' := by
        intro hSame
        cases rest with
        | nil => exact hLone hSame rfl
        | cons e rest => exact hShort e rest hSame rfl
      rw [doubleQuoted?_verbatim hQuote hStroke,
        Option.map_eq_none_iff, isClosed_verbatim hQuote hStroke]
      exact ih

/- A text is cut at a mark unless there is none. -/
theorem cut?_eq_none_iff
    {mark : CodePoint} :
    text.cut? mark = none ↔ mark ∉ text := by
  induction text with
  | nil => exact iff_of_true rfl List.not_mem_nil
  | cons c text ih =>
      rw [Text.cut?, List.mem_cons, not_or]
      split
      · rename_i hMark
        exact iff_of_false (Option.some_ne_none _) fun hOther =>
          hOther.1 hMark.symm
      · rename_i hMark
        rw [Option.map_eq_none_iff, ih]
        exact (and_iff_right (Ne.symm hMark)).symm

------------------------------------------------------------
-- What Cannot Be Read
------------------------------------------------------------

/-
  No blank space, comment, string, number or word begins at
  the front of a text, and no sign stands there.
-/
structure BeginsNothing
    (ended : Bool)
    (c : CodePoint)
    (rest : Text) : Prop where
  not_blank : c.isBlank = false
  not_comment : c ≠ '#'
  not_quote : c ≠ '"' ∧ c ≠ '\''
  not_number : numberAhead ended c rest = false
  not_word : c.isAsciiLetter = false
  not_sign :
    ∀ entry ∈ TokenKind.longSigns ++ TokenKind.shortSigns,
      ¬ entry.1 <+: c :: rest

/-
  Nothing can be read at the front of a text, for a cause: a
  quote is not closed in it, what begins as a number has not
  the form of one, the longest number has a value beyond all
  finite ones or more digits than an integer may have, or the
  first code point begins nothing at all.
-/
inductive Unreadable (ended : Bool) : Text → LexCause → Prop where
  | doubleQuote
      {rest : Text}
      (hOpen : ¬ IsClosed rest) :
      Unreadable ended (.char '"' :: rest) .unterminatedString
  | singleQuote
      {rest : Text}
      (hOpen : .char '\'' ∉ rest) :
      Unreadable ended (.char '\'' :: rest) .unterminatedString
  | noNumber
      {c : CodePoint}
      {rest : Text}
      (hAhead : numberAhead ended c rest = true)
      (hNone : ∀ numeral : Numeral, ¬ numeral.text <+: c :: rest) :
      Unreadable ended (c :: rest) .malformedNumber
  | infinite
      {c : CodePoint}
      {rest : Text}
      {numeral : Numeral}
      (hAhead : numberAhead ended c rest = true)
      (hLongest : numeral.IsLongest (c :: rest))
      (hFloat : numeral.fraction ≠ [] ∨ numeral.exponent ≠ [])
      (hInfinite :
        (Binary64.ofNotation numeral.text).magnitude =
          Binary64.infinityBits) :
      Unreadable ended (c :: rest) (.floatOutOfRange numeral.text)
  | tooLong
      {c : CodePoint}
      {rest : Text}
      {numeral : Numeral}
      (hAhead : numberAhead ended c rest = true)
      (hLongest : numeral.IsLongest (c :: rest))
      (hInteger : numeral.fraction = [] ∧ numeral.exponent = [])
      (hDigits : Text.maxIntegerDigits < numeral.whole.length) :
      Unreadable ended (c :: rest) .integerOutOfRange
  | nothing
      {c : CodePoint}
      {rest : Text}
      (hNothing : BeginsNothing ended c rest) :
      Unreadable ended (c :: rest) (.unexpectedCharacter c)

------------------------------------------------------------
-- Strings And Signs That Fail
------------------------------------------------------------

variable {cause : LexCause}

theorem doubleQuoted_eq_error_iff :
    doubleQuoted rest = .error cause ↔
      cause = .unterminatedString ∧ ¬ IsClosed rest := by
  rw [← doubleQuoted?_eq_none_iff, doubleQuoted]
  cases doubleQuoted? rest with
  | none => simp [eq_comm]
  | some read => simp

theorem singleQuoted_eq_error_iff :
    singleQuoted rest = .error cause ↔
      cause = .unterminatedString ∧ .char '\'' ∉ rest := by
  rw [← cut?_eq_none_iff, singleQuoted]
  cases rest.cut? (.char '\'') with
  | none => simp [eq_comm]
  | some parts => simp

/- A text that is looked up in vain is none of a table. -/
theorem lookup_take_eq_none_iff
    {table : List (Text × TokenKind)}
    {count : Nat}
    (hTable : ∀ entry ∈ table, entry.1.length = count)
    (text : Text) :
    table.lookup (text.take count) = none ↔
      ∀ entry ∈ table, ¬ entry.1 <+: text := by
  rw [List.lookup_eq_none_iff]
  refine forall₂_congr fun entry hMem => ?_
  rw [List.prefix_iff_eq_take, hTable entry hMem, bne_iff_ne,
    ne_comm]

/- A sign is read if one stands there, and only then. -/
theorem sign_eq_error_iff :
    sign c rest = .error cause ↔
      cause = .unexpectedCharacter c ∧
        ∀ entry ∈ TokenKind.longSigns ++ TokenKind.shortSigns,
          ¬ entry.1 <+: c :: rest := by
  have hLong :=
    @lookup_take_eq_none_iff TokenKind.longSigns 2 (by decide)
      (c :: rest)
  have hShort :=
    @lookup_take_eq_none_iff TokenKind.shortSigns 1 (by decide)
      (c :: rest)
  rw [List.take_succ_cons] at hLong hShort
  rw [List.forall_mem_append, ← hLong, ← hShort, List.take_zero, sign]
  cases TokenKind.longSigns.lookup (c :: rest.take 1) with
  | some kind => simp
  | none =>
      cases TokenKind.shortSigns.lookup [c] with
      | some kind => simp
      | none => simp [eq_comm]

------------------------------------------------------------
-- Numbers That Fail
------------------------------------------------------------

/- A number is an integer if it has neither a fraction nor an exponent. -/
theorem isFloatNotation_eq_false_iff (numeral : Numeral) :
    isFloatNotation numeral.text = false ↔
      numeral.fraction = [] ∧ numeral.exponent = [] := by
  constructor
  · intro hInteger
    have hText := (numeral.text_of_not_isFloatNotation hInteger).1
    rw [Numeral.text, List.append_assoc, List.append_right_eq_self,
      List.append_eq_nil_iff] at hText
    exact hText
  · rintro ⟨hFraction, hExponent⟩
    have hSign : isFloatNotation numeral.sign = false := by
      rcases numeral.sign_form with hForm | hForm | hForm
      · rw [hForm]; rfl
      · rw [hForm]; rfl
      · rw [hForm]; rfl
    have hWhole : isFloatNotation numeral.whole = false := by
      rw [isFloatNotation, List.any_eq_false]
      rintro c hMem hMark
      have hDigit := numeral.whole_form c hMem
      simp only [Bool.or_eq_true, beq_iff_eq] at hMark
      rcases hMark with (rfl | rfl) | rfl
      · cases hDigit
      · cases hDigit
      · cases hDigit
    rw [isFloatNotation] at hSign hWhole ⊢
    rw [Numeral.text, hFraction, hExponent, List.append_nil,
      List.append_nil, List.any_append, hSign, hWhole]
    rfl

/- Rounding leads no further than infinity. -/
theorem ofDecimal_le_infinityBits
    (digits : Nat)
    (exponent : Int) :
    Binary64.ofDecimal digits exponent ≤ Binary64.infinityBits := by
  rw [Binary64.ofDecimal.eq_def]
  split
  · exact Nat.zero_le _
  · split
    · exact Nat.le_refl _
    · split
      · exact Nat.zero_le _
      · split
        · exact Nat.min_le_right _ _
        · exact Nat.min_le_right _ _

/- A number that is written is finite unless it is infinite. -/
theorem isFinite_ofNotation_eq_false_iff (text : Text) :
    (Binary64.ofNotation text).isFinite = false ↔
      (Binary64.ofNotation text).magnitude =
        Binary64.infinityBits := by
  have hLe :
      (Binary64.ofNotation text).magnitude ≤
        Binary64.infinityBits := by
    rw [Binary64.ofNotation.eq_def]
    split
    · exact ofDecimal_le_infinityBits _ _
    · exact ofDecimal_le_infinityBits _ _
    · exact ofDecimal_le_infinityBits _ _
  rw [Binary64.isFinite, decide_eq_false_iff_not, Nat.not_lt]
  exact ⟨Nat.le_antisymm hLe, Nat.le_of_eq ∘ Eq.symm⟩

/- Besides the sign an integer has its digits. -/
theorem length_sub_signPart
    {numeral : Numeral}
    (hInteger : isFloatNotation numeral.text = false) :
    numeral.text.length - (signPart numeral.text).length =
      numeral.whole.length := by
  have hText := (numeral.text_of_not_isFloatNotation hInteger).1
  have hSign := numeral.signPart_whole []
  rw [List.append_nil, ((isFloatNotation_eq_false_iff _).mp hInteger).1,
    List.append_nil] at hSign
  rw [hText, signPart_append numeral.sign_form hSign,
    List.length_append, Nat.add_sub_cancel_left]

/- A number has no value if it is infinite or has too many digits. -/
theorem numberValue_eq_error_iff (numeral : Numeral) :
    numberValue numeral.text = .error cause ↔
      (cause = .floatOutOfRange numeral.text ∧
          (numeral.fraction ≠ [] ∨ numeral.exponent ≠ []) ∧
          (Binary64.ofNotation numeral.text).magnitude =
            Binary64.infinityBits) ∨
        (cause = .integerOutOfRange ∧
          (numeral.fraction = [] ∧ numeral.exponent = []) ∧
          Text.maxIntegerDigits < numeral.whole.length) := by
  rw [← isFinite_ofNotation_eq_false_iff, ← not_and_or,
    ← isFloatNotation_eq_false_iff, Bool.not_eq_false, numberValue]
  cases hNotation : isFloatNotation numeral.text with
  | true =>
      rw [if_pos rfl]
      cases hFinite : (Binary64.ofNotation numeral.text).isFinite with
      | true => simp [hFinite]
      | false => simp [hFinite, @eq_comm LexCause cause]
  | false =>
      rw [if_neg Bool.false_ne_true, length_sub_signPart hNotation]
      split
      · rename_i hDigits
        simp [Nat.lt_of_not_le (Nat.not_le.mpr hDigits),
          @eq_comm LexCause cause]
      · rename_i hDigits
        simp [Nat.not_lt.mp hDigits]

/- No number begins with a quote. -/
theorem numberAhead_quote
    (hQuote : c = '"' ∨ c = '\'') :
    numberAhead ended c rest = false := by
  rcases hQuote with rfl | rfl
  · rfl
  · rfl

/- The number that is read is the longest one. -/
theorem number_of_isLongest
    {numeral : Numeral}
    (hLongest : numeral.IsLongest text) :
    number text = .error cause ↔
      numberValue numeral.text = .error cause := by
  have hWritten := numberPart?_eq_some_iff.mpr ⟨_, rfl, hLongest⟩
  cases hValue : numberValue numeral.text with
  | ok value =>
      simp only [number, hWritten, hValue]
      exact iff_of_false (by rintro ⟨⟩) (by rintro ⟨⟩)
  | error other =>
      simp only [number, hWritten, hValue]
      exact ⟨fun hError => by cases hError; rfl,
        fun hError => by cases hError; rfl⟩

/- A number is read if the longest one has a value, and only then. -/
theorem number_eq_error_iff
    (hAhead : numberAhead ended c rest = true) :
    number (c :: rest) = .error cause ↔
      Unreadable ended (c :: rest) cause := by
  constructor
  · intro hError
    cases hWritten : numberPart? (c :: rest) with
    | none =>
        rw [number, hWritten] at hError
        cases hError
        exact .noNumber hAhead (numberPart?_eq_none_iff.mp hWritten)
    | some written =>
        rcases numberPart?_eq_some_iff.mp hWritten with
          ⟨numeral, -, hLongest⟩
        rw [number_of_isLongest hLongest, numberValue_eq_error_iff]
          at hError
        rcases hError with
          ⟨rfl, hFloat, hInfinite⟩ | ⟨rfl, hInteger, hDigits⟩
        · exact .infinite hAhead hLongest hFloat hInfinite
        · exact .tooLong hAhead hLongest hInteger hDigits
  · intro hUnreadable
    cases hUnreadable with
    | doubleQuote =>
        rw [numberAhead_quote (.inl rfl)] at hAhead
        cases hAhead
    | singleQuote =>
        rw [numberAhead_quote (.inr rfl)] at hAhead
        cases hAhead
    | noNumber _ hNone =>
        rw [number, numberPart?_eq_none_iff.mpr hNone]
        rfl
    | infinite _ hLongest hFloat hInfinite =>
        rw [number_of_isLongest hLongest, numberValue_eq_error_iff]
        exact .inl ⟨rfl, hFloat, hInfinite⟩
    | tooLong _ hLongest hInteger hDigits =>
        rw [number_of_isLongest hLongest, numberValue_eq_error_iff]
        exact .inr ⟨rfl, hInteger, hDigits⟩
    | nothing hNothing =>
        rw [hNothing.not_number] at hAhead
        cases hAhead

------------------------------------------------------------
-- The Next Lexeme
------------------------------------------------------------

/- What a number begins with is no blank space and no sharp. -/
theorem isHalt_of_numberAhead
    (hAhead : numberAhead ended c rest = true) :
    c.isHalt = false := by
  by_contra hHalt
  rw [Bool.not_eq_false] at hHalt
  have hPoint : (c == '.') = false :=
    beq_eq_false_iff_ne.mpr (CodePoint.ne_of_isHalt hHalt (by decide))
  have hPlus : (c == '+') = false :=
    beq_eq_false_iff_ne.mpr (CodePoint.ne_of_isHalt hHalt (by decide))
  have hMinus : (c == '-') = false :=
    beq_eq_false_iff_ne.mpr (CodePoint.ne_of_isHalt hHalt (by decide))
  rw [numberAhead, unsignedAhead, CodePoint.isDigit_of_isHalt hHalt,
    hPoint, hPlus, hMinus] at hAhead
  cases hAhead

/- Where a number begins it is a number that is read. -/
theorem next_of_numberAhead
    (hAhead : numberAhead ended c rest = true) :
    next ended c rest = number (c :: rest) := by
  have hHalt := isHalt_of_numberAhead hAhead
  rw [CodePoint.isHalt, Bool.or_eq_false_iff, decide_eq_false_iff_not]
    at hHalt
  have hQuotes : c ≠ '"' ∧ c ≠ '\'' := by
    constructor
    · rintro rfl
      rw [numberAhead_quote (.inl rfl)] at hAhead
      cases hAhead
    · rintro rfl
      rw [numberAhead_quote (.inr rfl)] at hAhead
      cases hAhead
  rw [next, hHalt.1, if_neg Bool.false_ne_true, if_neg hHalt.2,
    if_neg hQuotes.1, if_neg hQuotes.2, if_pos hAhead]

/- Where no lexeme is read, none can be, and the other way round. -/
theorem next_eq_error_iff :
    next ended c rest = .error cause ↔
      Unreadable ended (c :: rest) cause := by
  constructor
  · intro hError
    rw [next] at hError
    split at hError
    · cases hError
    rename_i hBlank
    split at hError
    · cases hError
    rename_i hSharp
    split at hError
    · rename_i hQuote
      rcases doubleQuoted_eq_error_iff.mp hError with ⟨rfl, hOpen⟩
      rw [hQuote]
      exact .doubleQuote hOpen
    rename_i hDouble
    split at hError
    · rename_i hQuote
      rcases singleQuoted_eq_error_iff.mp hError with ⟨rfl, hOpen⟩
      rw [hQuote]
      exact .singleQuote hOpen
    rename_i hSingle
    split at hError
    · rename_i hAhead
      exact (number_eq_error_iff hAhead).mp hError
    rename_i hNumber
    split at hError
    · cases hError
    rename_i hWord
    rcases sign_eq_error_iff.mp hError with ⟨rfl, hSign⟩
    exact .nothing
      { not_blank := Bool.eq_false_iff.mpr hBlank
        not_comment := hSharp
        not_quote := ⟨hDouble, hSingle⟩
        not_number := Bool.eq_false_iff.mpr hNumber
        not_word := Bool.eq_false_iff.mpr hWord
        not_sign := hSign }
  · intro hUnreadable
    cases hUnreadable with
    | doubleQuote hOpen =>
        exact doubleQuoted_eq_error_iff.mpr ⟨rfl, hOpen⟩
    | singleQuote hOpen =>
        exact singleQuoted_eq_error_iff.mpr ⟨rfl, hOpen⟩
    | noNumber hAhead hNone =>
        rw [next_of_numberAhead hAhead, number_eq_error_iff hAhead]
        exact .noNumber hAhead hNone
    | infinite hAhead hLongest hFloat hInfinite =>
        rw [next_of_numberAhead hAhead, number_eq_error_iff hAhead]
        exact .infinite hAhead hLongest hFloat hInfinite
    | tooLong hAhead hLongest hInteger hDigits =>
        rw [next_of_numberAhead hAhead, number_eq_error_iff hAhead]
        exact .tooLong hAhead hLongest hInteger hDigits
    | nothing hNothing =>
        rw [next, hNothing.not_blank, hNothing.not_number,
          hNothing.not_word, if_neg hNothing.not_comment,
          if_neg hNothing.not_quote.1, if_neg hNothing.not_quote.2]
        exact sign_eq_error_iff.mpr ⟨rfl, hNothing.not_sign⟩

end Lexeme

------------------------------------------------------------
-- Where Scanning Stops
------------------------------------------------------------

/-
  What is scanned up to a failure is scanned of the text before
  it, which ends there. Each lexeme has been read without what
  comes after the failure.
-/
theorem exists_stop_of_scanFrom
    {ended : Bool}
    {point : Point}
    {text : Text}
    {tokens : List Token}
    {error : LexError}
    (hScan : scanFrom ended point text = ⟨tokens, some error⟩) :
    ∃ front back,
      text = front ++ back ∧
        error.point = point.advance front ∧
        scanFrom ended point front =
          ⟨tokens ++ [.endAt error.point], none⟩ ∧
        Lexeme.Unreadable (endedAfter ended tokens) back
          error.cause := by
  induction ended, point, text using scanFrom.induct generalizing
    tokens with
  | case1 ended point =>
      rw [scanFrom_nil] at hScan
      cases hScan
  | case2 ended point c rest cause hNext =>
      rw [scanFrom_of_error hNext] at hScan
      cases hScan
      exact
        ⟨[], _, rfl, rfl, scanFrom_nil ended point,
          Lexeme.next_eq_error_iff.mp hNext⟩
  | case3 ended point c rest lexeme hNext ih =>
      rcases (Lexeme.reads_of_next hNext).exists_after with
        ⟨more, after, hText, rfl⟩
      have hDrop (rest : Text) :
          (more ++ rest).drop (lexeme.text.length - 1) = rest := by
        simp [hText]
      rw [scanFrom_of_next hNext, Scan.push] at hScan
      rw [hDrop] at ih hScan
      -- With the front of what follows the lexeme is read again.
      have hAgain (front back : Text) (hAfter : after = front ++ back) :
          scanFrom ended point (c :: more ++ front) =
            (scanFrom (lexeme.endsOperand ended)
              (point.advance lexeme.text) front).push point
              lexeme := by
        rw [hAfter] at hNext
        rw [List.cons_append,
          scanFrom_of_next (Lexeme.next_shorter hNext hText), hDrop]
      have hAdvance (front : Text) :
          (point.advance lexeme.text).advance front =
            point.advance (c :: more ++ front) := by
        rw [hText, Point.advance, Point.advance, Point.advance,
          List.foldl_append]
      rcases lexeme with ⟨text, kind, literal⟩
      cases kind with
      | none =>
          rcases ih hScan with
            ⟨front, back, hAfter, hPoint, hFront, hBack⟩
          refine
            ⟨c :: more ++ front, back, by simp [hAfter],
              hPoint.trans (hAdvance front), ?_, hBack⟩
          rw [hAgain front back hAfter]
          exact hFront
      | some kind =>
          rcases Scan.mk.inj hScan with ⟨hTokens, hFailure⟩
          rcases ih (by rw [← hFailure]) with
            ⟨front, back, hAfter, hPoint, hFront, hBack⟩
          rw [← hTokens]
          refine
            ⟨c :: more ++ front, back, by simp [hAfter],
              hPoint.trans (hAdvance front), ?_, hBack⟩
          rw [hAgain front back hAfter, hFront]
          rfl

/- A text that has no tokens is scanned up to a failure. -/
theorem scan_of_tokenize_error
    {text : Text}
    {error : LexError}
    (hError : tokenize text = .error error) :
    scan text = ⟨(scan text).tokens, some error⟩ := by
  rw [tokenize] at hError
  cases hFailure : (scan text).failure with
  | none => simp [hFailure] at hError
  | some failure =>
      simp only [hFailure, Except.error.injEq] at hError
      rw [← hError, ← hFailure]

/- The place after a longer front of a text is a later one. -/
theorem Point.after_take_lt
    {text : Text}
    {count other : Nat}
    (hLess : count < other)
    (hCount : count < text.length) :
    after (text.take count) < after (text.take other) := by
  have hMore :
      text.take other =
        text.take count ++ (text.drop count).take (other - count) := by
    rw [← List.take_add, Nat.add_sub_cancel' hLess.le]
  rw [hMore]
  apply after_lt_append
  rw [Ne, List.take_eq_nil_iff, List.drop_eq_nil_iff]
  omega

/- A place in a text is the place after one front of it only. -/
theorem Point.after_take_inj
    {text : Text}
    {count other : Nat}
    (hCount : count ≤ text.length)
    (hOther : other ≤ text.length) :
    after (text.take count) = after (text.take other) ↔
      count = other := by
  constructor
  · intro hSame
    rcases Nat.lt_trichotomy count other with hLess | hEq | hMore
    · exact absurd hSame
        (after_take_lt hLess (hLess.trans_le hOther)).ne
    · exact hEq
    · exact absurd hSame.symm
        (after_take_lt hMore (hMore.trans_le hCount)).ne
  · rintro rfl
    rfl

/-
  Where a script cannot be read on, an offset of it is named by
  its line and column. What stands there is an open quote, a
  number without a form or a value, or a code point that begins
  nothing; and the text before it has the tokens that were read
  before the failure, with nothing after them but its end.
-/
theorem stops_of_tokenize
    {text : Text}
    {error : LexError}
    (hError : tokenize text = .error error) :
    ∃ offset < text.length,
      (∀ other ≤ text.length,
        Point.after (text.take other) = error.point ↔
          other = offset) ∧
        tokenize (text.take offset) =
          .ok ((scan text).tokens ++ [.endAt error.point]) ∧
        Lexeme.Unreadable
          (endedAfter false (scan text).tokens)
          (text.drop offset) error.cause := by
  have hScan := scan_of_tokenize_error hError
  rcases exists_stop_of_scanFrom hScan with
    ⟨front, back, hText, hPoint, hFront, hBack⟩
  have hBackNotEmpty : back ≠ [] := by
    rintro rfl
    cases hBack
  have hLength : front.length < text.length := by
    rw [hText, List.length_append]
    exact Nat.lt_add_of_pos_right
      (List.length_pos_iff.mpr hBackNotEmpty)
  have hTake : text.take front.length = front := by
    rw [hText, List.take_left]
  have hPlace : error.point = .after (text.take front.length) := by
    rw [hTake, hPoint, ← List.nil_append front,
      ← Point.after_advance]
    rfl
  refine ⟨front.length, hLength, ?_, ?_, ?_⟩
  · intro other hOther
    rw [hPlace, Point.after_take_inj hOther hLength.le]
  · rw [hTake, tokenize, scan, hFront]
  · have hDrop : text.drop front.length = back := by
      rw [hText, List.drop_left]
    rw [hDrop]
    exact hBack

/-
  After an operand a stroke is a sign of its own, so it is what
  comes after it that is no number.
-/
theorem stops_of_tokenize_sign :
    tokenize "x = 1\n-.²" = .error ⟨.malformedNumber, ⟨2, 2⟩⟩ ∧
      (scan "x = 1\n-.²").tokens.map Token.kind =
        [.identifier, .assign, .number, .minus] ∧
      ∃ offset < 9,
        (∀ other ≤ 9,
          Point.after (List.take other "x = 1\n-.²") = ⟨2, 2⟩ ↔
            other = offset) ∧
          tokenize (List.take offset "x = 1\n-.²") =
            .ok ((scan "x = 1\n-.²").tokens ++ [.endAt ⟨2, 2⟩]) ∧
          Lexeme.Unreadable
            (endedAfter false (scan "x = 1\n-.²").tokens)
            (List.drop offset "x = 1\n-.²") .malformedNumber := by
  have hScan :
      (scan "x = 1\n-.²").failure =
          some ⟨.malformedNumber, ⟨2, 2⟩⟩ ∧
        (scan "x = 1\n-.²").tokens.map Token.kind =
          [.identifier, .assign, .number, .minus] := by
    decide +kernel
  have hError :
      tokenize "x = 1\n-.²" =
        .error ⟨.malformedNumber, ⟨2, 2⟩⟩ := by
    rw [tokenize, hScan.1]
  exact ⟨hError, hScan.2, stops_of_tokenize hError⟩

end ExperimentScript
