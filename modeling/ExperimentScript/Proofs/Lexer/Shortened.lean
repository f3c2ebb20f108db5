import Mathlib.Data.List.TakeWhile
import ExperimentScript.Proofs.Lexer.Front

/-
  Lexemes are read again from texts that are cut short.

  A lexeme is as long as what comes after it allows. What is
  left out of the text after the lexeme could only have made
  it longer, so that it is read again from what is left, and
  also if that is nothing. A string ends with its closing
  quote whatever comes after it.

  Key definitions include:
    * `ExperimentScript.Lexeme.Survives`

  Main declarations:
    * `ExperimentScript.Lexeme.numberPart?_shorter`
    * `ExperimentScript.Lexeme.next_quoted`
    * `ExperimentScript.Lexeme.next_shorter`
-/

namespace ExperimentScript

namespace Lexeme

variable {ended : Bool}
variable {c : CodePoint}
variable {text rest more : Text}

------------------------------------------------------------
-- Where Numbers Begin
------------------------------------------------------------

theorem digitAhead_append
    {text : Text}
    (hAhead : digitAhead text = true)
    (after : Text) :
    digitAhead (text ++ after) = true := by
  cases text with
  | nil => cases hAhead
  | cons d text => exact hAhead

/- What begins a number begins one whatever comes after it. -/
theorem unsignedAhead_append
    {text : Text}
    (hAhead : unsignedAhead text = true)
    (after : Text) :
    unsignedAhead (text ++ after) = true := by
  cases text with
  | nil => cases hAhead
  | cons d text =>
      rw [unsignedAhead, Bool.or_eq_true, Bool.and_eq_true] at hAhead
      rw [List.cons_append, unsignedAhead, Bool.or_eq_true,
        Bool.and_eq_true]
      exact hAhead.imp_right fun hPoint =>
        ⟨hPoint.1, digitAhead_append hPoint.2 after⟩

theorem numberAhead_append
    {text : Text}
    (hAhead : numberAhead ended c text = true)
    (after : Text) :
    numberAhead ended c (text ++ after) = true := by
  simp only [numberAhead, Bool.or_eq_true, Bool.and_eq_true]
    at hAhead ⊢
  exact hAhead.imp
    (fun hUnsigned => unsignedAhead_append hUnsigned after)
    fun hSign => ⟨hSign.1, unsignedAhead_append hSign.2 after⟩

/- A number that is read begins one by itself. -/
theorem numberAhead_numeral
    {numeral : Numeral}
    {more after : Text}
    (hText : numeral.text = c :: more)
    (hAhead : numberAhead ended c (more ++ after) = true) :
    numberAhead ended c more = true := by
  rcases numeral.exists_unsigned with
    ⟨first, digits, hParts, -, hUnsigned⟩
  have hAlone : unsignedAhead (first :: digits) = true := by
    simpa using hUnsigned []
  have hWhole : numeral.sign ++ (first :: digits) = c :: more := by
    rw [← hParts, ← hText]
    simp [Numeral.text]
  rcases numeral.sign_form with hNone | hSome
  · rw [hNone, List.nil_append] at hWhole
    rw [numberAhead, ← hWhole, hAlone, Bool.true_or]
  · have hSigned :
        (c = '+' ∨ c = '-') ∧ first :: digits = more := by
      have hPlus : ("+" : Text) = [.char '+'] := rfl
      have hMinus : ("-" : Text) = [.char '-'] := rfl
      rw [hPlus, hMinus] at hSome
      rcases hSome with hSign | hSign
      · rw [hSign] at hWhole
        exact (List.cons.inj hWhole).imp (fun h => .inl h.symm) id
      · rw [hSign] at hWhole
        exact (List.cons.inj hWhole).imp (fun h => .inr h.symm) id
    have hDigit : c.isDigit = false ∧ c ≠ '.' := by
      rcases hSigned.1 with rfl | rfl <;> decide
    have hEnded : ended = false := by
      rw [numberAhead, unsignedAhead, hDigit.1,
        beq_eq_false_iff_ne.mpr hDigit.2, Bool.false_and,
        Bool.false_or, Bool.false_or] at hAhead
      simp only [Bool.and_eq_true, Bool.not_eq_true'] at hAhead
      exact hAhead.1.2
    rw [numberAhead, hEnded, ← hSigned.2, hAlone]
    rcases hSigned.1 with rfl | rfl <;> rfl

------------------------------------------------------------
-- Parts Of Numbers
------------------------------------------------------------

theorem signPart_cons (text : Text) (d : CodePoint) :
    signPart (d :: text) =
      if d = '+' ∨ d = '-' then [d] else [] := by
  rw [signPart.eq_def]
  split
  · rename_i hSame
    cases hSame
    rw [if_pos (.inl rfl)]
  · rename_i hSame
    cases hSame
    rw [if_pos (.inr rfl)]
  · rename_i hPlus hMinus
    rw [if_neg]
    rintro (rfl | rfl)
    · exact hPlus _ rfl
    · exact hMinus _ rfl

theorem fractionPart_cons (text : Text) (d : CodePoint) :
    fractionPart (d :: text) =
      if d = '.' ∧ text.takeWhile CodePoint.isAsciiDigit ≠ [] then
        d :: text.takeWhile CodePoint.isAsciiDigit
      else
        [] := by
  rw [fractionPart.eq_def]
  split
  · rename_i rest hSame
    cases hSame
    split
    · rename_i hNone
      rw [if_neg fun hSome => hSome.2 hNone]
    · rename_i hSome
      rw [if_pos ⟨rfl, hSome⟩]
  · rename_i hPoint
    rw [if_neg]
    rintro ⟨rfl, -⟩
    exact hPoint _ rfl

theorem exponentPart_cons (text : Text) (d : CodePoint) :
    exponentPart (d :: text) =
      if (d = 'e' ∨ d = 'E') ∧
          (text.drop (signPart text).length).takeWhile
            CodePoint.isAsciiDigit ≠ [] then
        d :: signPart text ++
          (text.drop (signPart text).length).takeWhile
            CodePoint.isAsciiDigit
      else
        [] := by
  rw [exponentPart]
  by_cases hMark : d = 'e' ∨ d = 'E'
  · rw [if_pos hMark]
    dsimp only
    split
    · rename_i hNone
      rw [if_neg fun hSome => hSome.2 hNone]
    · rename_i hSome
      rw [if_pos ⟨hMark, hSome⟩]
  · rw [if_neg hMark, if_neg fun hSome => hMark hSome.1]

------------------------------------------------------------
-- Numbers That Are Cut Short
------------------------------------------------------------

/- What is read of a text is read of its front if that has all of it. -/
def Survives (part : Text → Text) : Prop :=
  ∀ text rest : Text,
    (part (text ++ rest)).length ≤ text.length →
      part text = part (text ++ rest)

theorem survives_takeWhile (test : CodePoint → Bool) :
    Survives (List.takeWhile test) := by
  intro text rest hLength
  rw [List.takeWhile_append] at hLength ⊢
  split
  · rename_i hAll
    rw [if_pos hAll, List.length_append] at hLength
    have hNone : rest.takeWhile test = [] :=
      List.eq_nil_of_length_eq_zero (by omega)
    rw [hNone, List.append_nil,
      (List.takeWhile_prefix test).eq_of_length hAll]
  · rfl

theorem survives_signPart : Survives signPart := by
  intro text rest hLength
  cases text with
  | nil =>
      exact (List.eq_nil_of_length_eq_zero (by simpa using hLength)).symm
  | cons d text => rw [List.cons_append, signPart_cons, signPart_cons]

theorem survives_fractionPart : Survives fractionPart := by
  intro text rest hLength
  cases text with
  | nil =>
      exact (List.eq_nil_of_length_eq_zero (by simpa using hLength)).symm
  | cons d text =>
      rw [List.cons_append, fractionPart_cons] at hLength ⊢
      rw [fractionPart_cons]
      by_cases hPoint : d = '.'
      · have hDigits :
            text.takeWhile CodePoint.isAsciiDigit =
              (text ++ rest).takeWhile CodePoint.isAsciiDigit := by
          apply survives_takeWhile
          split at hLength
          · simpa using hLength
          · rename_i hNone
            simp only [hPoint, true_and, Classical.not_not] at hNone
            simp [hNone]
        rw [hDigits]
      · rw [if_neg fun hBoth => hPoint hBoth.1,
          if_neg fun hBoth => hPoint hBoth.1]

/-
  A part is read of the front of a text if that has all of it,
  and what follows the part there is the same up to the rest.
-/
theorem Survives.exists_left
    {part : Text → Text}
    (hPart : Survives part)
    (hPrefix : ∀ text, part text <+: text)
    (text rest : Text)
    (hLength : (part (text ++ rest)).length ≤ text.length) :
    ∃ left,
      part text = part (text ++ rest) ∧
        text.drop (part (text ++ rest)).length = left ∧
        (text ++ rest).drop (part (text ++ rest)).length =
          left ++ rest ∧
        (part (text ++ rest)).length + left.length = text.length := by
  have hSame := hPart text rest hLength
  refine ⟨_, hSame, rfl, ?_, ?_⟩
  · rw [← hSame]
    exact List.drop_append_of_le_length (hPrefix text).length_le
  · rw [List.length_drop]
    omega

/- The digits after a sign at the front of a text. -/
def digitsPart (text : Text) : Text :=
  (text.drop (signPart text).length).takeWhile CodePoint.isAsciiDigit

/- A sign with its digits is read of the front of a text if that has both. -/
theorem digitsPart_shorter
    (hLength :
      (signPart (text ++ rest)).length +
          (digitsPart (text ++ rest)).length ≤
        text.length) :
    signPart text = signPart (text ++ rest) ∧
      digitsPart text = digitsPart (text ++ rest) := by
  rcases survives_signPart.exists_left isPrefix_signPart text rest
      (by omega) with
    ⟨left, hSign, hLeft, hAll, hSize⟩
  unfold digitsPart at hLength ⊢
  rw [hAll] at hLength ⊢
  rw [hSign, hLeft]
  refine ⟨rfl, survives_takeWhile _ left rest ?_⟩
  omega

/- Without digits there are none in what is left of the text. -/
theorem digitsPart_eq_nil
    (hNone : digitsPart (text ++ rest) = []) :
    digitsPart text = [] := by
  cases text with
  | nil => rfl
  | cons d text =>
      have hSign :
          (signPart (d :: text ++ rest)).length ≤
            (d :: text).length := by
        rw [List.cons_append, signPart_cons]
        split <;> simp
      rw [← hNone]
      refine (digitsPart_shorter ?_).2
      rwa [hNone, List.length_nil, Nat.add_zero]

theorem exponentPart_eq (d : CodePoint) (text : Text) :
    exponentPart (d :: text) =
      if (d = 'e' ∨ d = 'E') ∧ digitsPart text ≠ [] then
        d :: signPart text ++ digitsPart text
      else
        [] :=
  exponentPart_cons text d

theorem survives_exponentPart : Survives exponentPart := by
  intro text rest hLength
  cases text with
  | nil =>
      exact (List.eq_nil_of_length_eq_zero (by simpa using hLength)).symm
  | cons d text =>
      rw [List.cons_append, exponentPart_eq] at hLength ⊢
      rw [exponentPart_eq]
      by_cases hDigits : digitsPart (text ++ rest) = []
      · rw [if_neg fun hBoth => hBoth.2 (digitsPart_eq_nil hDigits),
          if_neg fun hBoth => hBoth.2 hDigits]
      · by_cases hMark : d = 'e' ∨ d = 'E'
        · rw [if_pos ⟨hMark, hDigits⟩] at hLength
          simp only [List.cons_append, List.length_cons,
            List.length_append] at hLength
          rcases @digitsPart_shorter text rest (by omega) with
            ⟨hSign, hSame⟩
          rw [hSign, hSame]
        · rw [if_neg fun hBoth => hMark hBoth.1,
            if_neg fun hBoth => hMark hBoth.1]

/- A number is read of the front of a text if that has all of it. -/
theorem numberPart?_shorter
    {written : Text}
    (hWritten : numberPart? (text ++ rest) = some written)
    (hLength : written.length ≤ text.length) :
    numberPart? text = some written := by
  simp only [numberPart?] at hWritten ⊢
  split at hWritten
  · cases hWritten
  rename_i hSome
  have hParts := Option.some.inj hWritten
  rw [← hParts] at hLength ⊢
  simp only [List.length_append] at hLength
  -- Each part goes to where the next one begins.
  rcases survives_signPart.exists_left isPrefix_signPart text rest
      (by omega) with
    ⟨afterSign, hSign, hAfterSign, hAll, hSize⟩
  rw [hAll] at hLength hSome ⊢
  rw [hSign, hAfterSign]
  rcases (survives_takeWhile CodePoint.isAsciiDigit).exists_left
      (fun _ => List.takeWhile_prefix _) afterSign rest
      (by omega) with
    ⟨afterWhole, hWhole, hAfterWhole, hAll, hSize⟩
  rw [hAll] at hLength hSome ⊢
  rw [hWhole, hAfterWhole]
  rcases survives_fractionPart.exists_left isPrefix_fractionPart
      afterWhole rest (by omega) with
    ⟨afterFraction, hFraction, hAfterFraction, hAll, hSize⟩
  rw [hAll] at hLength ⊢
  rw [hFraction, hAfterFraction, if_neg hSome,
    survives_exponentPart afterFraction rest (by omega)]

------------------------------------------------------------
-- Strings
------------------------------------------------------------

/- The code point that four digits at the front of a text stand for. -/
def hexAhead? : Text → Option CodePoint
  | h₁ :: h₂ :: h₃ :: h₄ :: _ => hexEscape? h₁ h₂ h₃ h₄
  | _ => none

theorem hexAhead?_take (text : Text) :
    hexAhead? (text.take 4) = hexAhead? text := by
  rcases text with _ | ⟨a, _ | ⟨b, _ | ⟨c, _ | ⟨d, text⟩⟩⟩⟩ <;> rfl

/- The digits that make up an escape are hexadecimal. -/
theorem isSome_of_hexAhead?
    {text : Text}
    {c : CodePoint}
    (hAhead : hexAhead? text = some c) :
    ∀ h ∈ text.take 4, h.hexValue?.isSome = true := by
  rcases text with _ | ⟨h₁, _ | ⟨h₂, _ | ⟨h₃, _ | ⟨h₄, text⟩⟩⟩⟩
  case cons.cons.cons.cons => exact isSome_of_hexEscape? hAhead
  all_goals cases hAhead

/- Whether digits come first in a string is told by the string. -/
theorem hexAhead?_of_body
    {written after other : Text}
    (hBody : StringBody written)
    (hNone : hexAhead? (written ++ after) = none) :
    hexAhead? (written ++ other) = none := by
  cases hAhead : hexAhead? (written ++ other) with
  | none => rfl
  | some c =>
      exfalso
      by_cases hLength : 4 ≤ written.length
      · rw [← hexAhead?_take, List.take_append_of_le_length hLength]
          at hNone hAhead
        rw [hNone] at hAhead
        cases hAhead
      · rcases hBody.getLast_eq with ⟨inner, rfl⟩
        have hQuote :
            CodePoint.char '"' ∈
              (inner ++ [CodePoint.char '"'] ++ other).take 4 := by
          rw [List.take_append, List.take_of_length_le (by omega)]
          simp
        cases isSome_of_hexAhead? hAhead _ hQuote

/- An escape of one letter, or one that its digits do not follow. -/
theorem doubleQuoted?_stroke
    {e : CodePoint}
    {text : Text}
    (hDigits : e = 'u' → hexAhead? text = none) :
    doubleQuoted? (.char '\\' :: e :: text) =
      (doubleQuoted? text).map
        (withFront [.char '\\', e]
          (match escape? e with
            | some c => [c]
            | none => [.char '\\', e])) := by
  by_cases hLong :
      ∃ h₁ h₂ h₃ h₄ rest,
        e = 'u' ∧ text = h₁ :: h₂ :: h₃ :: h₄ :: rest
  · rcases hLong with ⟨h₁, h₂, h₃, h₄, rest, rfl, rfl⟩
    have hNone : hexEscape? h₁ h₂ h₃ h₄ = none := hDigits rfl
    rw [doubleQuoted?.eq_3, hNone]
    rfl
  · refine doubleQuoted?.eq_4 _ _ fun h₁ h₂ h₃ h₄ rest hMark hText => ?_
    exact hLong ⟨h₁, h₂, h₃, h₄, rest, hMark, hText⟩

/- What is neither a quote nor a stroke stands for itself. -/
theorem doubleQuoted?_verbatim
    (hQuote : c ≠ '"')
    (hStroke : c ≠ '\\')
    (text : Text) :
    doubleQuoted? (c :: text) =
      (doubleQuoted? text).map (withFront [c] [c]) :=
  doubleQuoted?.eq_6 _ _ hQuote
    (fun _ _ _ _ _ hSame _ => hStroke hSame)
    (fun _ _ hSame _ => hStroke hSame)
    fun hSame _ => hStroke hSame

/- An escape is read again if the rest of the string is. -/
theorem doubleQuoted?_again_stroke
    {e : CodePoint}
    {text written value after other : Text}
    (hDigits : e = 'u' → hexAhead? text = none)
    (hText : written ++ after = .char '\\' :: e :: text)
    (hQuoted :
      doubleQuoted? (.char '\\' :: e :: text) =
        some (written, value))
    (hAgain :
      ∀ {more moreValue : Text}, more ++ after = text →
        doubleQuoted? text = some (more, moreValue) →
          doubleQuoted? (more ++ other) = some (more, moreValue)) :
    doubleQuoted? (written ++ other) = some (written, value) := by
  rw [doubleQuoted?_stroke hDigits] at hQuoted
  rcases Option.map_eq_some_iff.mp hQuoted with
    ⟨⟨more, moreValue⟩, hMore, hPair⟩
  cases hPair
  have hRest : more ++ after = text := by
    simpa using hText
  have hOther : e = 'u' → hexAhead? (more ++ other) = none :=
    fun hMark =>
      hexAhead?_of_body (body_of_doubleQuoted? hMore).1
        (hRest.symm ▸ hDigits hMark)
  change doubleQuoted? (.char '\\' :: e :: (more ++ other)) = _
  rw [doubleQuoted?_stroke hOther, hAgain hRest hMore]
  rfl

/- A string is read again whatever comes after it. -/
theorem doubleQuoted?_again
    {written after value : Text}
    (hQuoted : doubleQuoted? (written ++ after) = some (written, value))
    (other : Text) :
    doubleQuoted? (written ++ other) = some (written, value) := by
  generalize hText : written ++ after = text at hQuoted
  induction text using doubleQuoted?.induct generalizing
    written value with
  | case1 => cases hQuoted
  | case2 rest =>
      rw [doubleQuoted?] at hQuoted
      cases hQuoted
      rfl
  | case3 h₁ h₂ h₃ h₄ rest c hEscape ih =>
      simp only [doubleQuoted?, hEscape] at hQuoted
      rcases Option.map_eq_some_iff.mp hQuoted with
        ⟨⟨more, moreValue⟩, hMore, hPair⟩
      cases hPair
      have hRest : more ++ after = rest := by
        simpa [Text.ofString] using hText
      change
        doubleQuoted?
          (.char '\\' :: .char 'u' :: h₁ :: h₂ :: h₃ :: h₄ ::
            (more ++ other)) = _
      rw [doubleQuoted?.eq_3, hEscape, ih hRest hMore]
      rfl
  | case4 h₁ h₂ h₃ h₄ rest hEscape ih =>
      refine doubleQuoted?_again_stroke (fun _ => ?_) hText hQuoted ih
      exact hEscape
  | case5 e rest hOther ih =>
      refine doubleQuoted?_again_stroke (fun hMark => ?_) hText hQuoted ih
      unfold hexAhead?
      split
      · exact (hOther _ _ _ _ _ hMark rfl).elim
      · rfl
  | case6 =>
      rw [doubleQuoted?] at hQuoted
      cases hQuoted
  | case7 c rest hQuote hLong hShort hLone ih =>
      have hStroke : c ≠ '\\' := by
        intro hSame
        cases rest with
        | nil => exact hLone hSame rfl
        | cons e rest => exact hShort e rest hSame rfl
      rw [doubleQuoted?_verbatim hQuote hStroke] at hQuoted
      rcases Option.map_eq_some_iff.mp hQuoted with
        ⟨⟨more, moreValue⟩, hMore, hPair⟩
      cases hPair
      have hRest : more ++ after = rest := by
        simpa using hText
      change doubleQuoted? (c :: (more ++ other)) = _
      rw [doubleQuoted?_verbatim hQuote hStroke, ih hRest hMore]
      rfl

/- A lexeme in quotes is read again whatever comes after it. -/
theorem next_quoted
    {more after : Text}
    {lexeme : Lexeme}
    (hQuote : c = '"' ∨ c = '\'')
    (hNext : next ended c (more ++ after) = .ok lexeme)
    (hText : lexeme.text = c :: more)
    (other : Text) :
    next ended c (more ++ other) = .ok lexeme := by
  rcases hQuote with rfl | rfl
  · change doubleQuoted (more ++ after) = .ok lexeme at hNext
    change doubleQuoted (more ++ other) = .ok lexeme
    unfold doubleQuoted at hNext
    split at hNext
    · rename_i written value hQuoted
      cases hNext
      cases hText
      rw [doubleQuoted, doubleQuoted?_again hQuoted]
    · cases hNext
  · change singleQuoted (more ++ after) = .ok lexeme at hNext
    change singleQuoted (more ++ other) = .ok lexeme
    unfold singleQuoted at hNext
    split at hNext
    · rename_i body rest hCut
      cases hNext
      obtain rfl : body ++ [.char '\''] = more :=
        (List.cons.inj hText).2
      rw [List.append_assoc]
      exact singleQuoted_of_not_mem (eq_of_cut? hCut).2 other
    · cases hNext

------------------------------------------------------------
-- Lexemes That Are Cut Short
------------------------------------------------------------

variable {after : Text}
variable {lexeme : Lexeme}

theorem comment_shorter
    (hText : (comment (more ++ (after ++ rest))).text = c :: more) :
    comment (more ++ after) = comment (more ++ (after ++ rest)) := by
  have hTaken := (List.cons.inj hText).2
  rw [comment, comment, ← List.append_assoc,
    survives_takeWhile _ (more ++ after) rest]
  rw [List.append_assoc, hTaken, List.length_append]
  omega

theorem word_shorter
    (hText :
      (word (c :: (more ++ (after ++ rest)))).text = c :: more) :
    word (c :: (more ++ after)) =
      word (c :: (more ++ (after ++ rest))) := by
  have hTaken :
      (c :: (more ++ (after ++ rest))).takeWhile
          CodePoint.continuesName =
        c :: more :=
    hText
  have hSame :=
    survives_takeWhile CodePoint.continuesName (c :: (more ++ after))
      rest
  rw [List.cons_append, List.append_assoc, hTaken] at hSame
  rw [word, word, hTaken, hSame]
  simp only [List.length_cons, List.length_append]
  omega

theorem number_shorter
    (hAhead : numberAhead ended c (more ++ (after ++ rest)) = true)
    (hNumber :
      number (c :: (more ++ (after ++ rest))) = .ok lexeme)
    (hText : lexeme.text = c :: more) :
    numberAhead ended c (more ++ after) = true ∧
      number (c :: (more ++ after)) = .ok lexeme := by
  rcases number_eq_ok_iff.mp hNumber with
    ⟨numeral, value, hWritten, hValue, rfl⟩
  have hSame : numeral.text = c :: more := hText
  have hShorter :
      numberPart? (c :: (more ++ after)) = some numeral.text := by
    apply numberPart?_shorter
    · rw [List.cons_append, List.append_assoc]
      exact hWritten
    · rw [hSame]
      simp
  exact
    ⟨numberAhead_append (numberAhead_numeral hSame hAhead) after,
      number_eq_ok_iff.mpr ⟨numeral, value, hShorter, hValue, rfl⟩⟩

/- A sign of two code points has two of them. -/
theorem length_of_lookup
    {kind : TokenKind}
    (hLookup : TokenKind.longSigns.lookup text = some kind) :
    text.length = 2 := by
  have hLong :
      ∀ entry ∈ TokenKind.longSigns, entry.1.length = 2 := by
    decide
  exact hLong _ (mem_of_lookup hLookup)

theorem lookup_single (d : CodePoint) :
    TokenKind.longSigns.lookup [d] = none := by
  cases hLookup : TokenKind.longSigns.lookup [d] with
  | none => rfl
  | some kind => cases length_of_lookup hLookup

theorem sign_shorter
    (hSign : sign c (more ++ (after ++ rest)) = .ok lexeme)
    (hText : lexeme.text = c :: more) :
    sign c (more ++ after) = .ok lexeme := by
  by_cases hTake :
      (more ++ after).take 1 = (more ++ (after ++ rest)).take 1
  · simp only [sign, hTake]
    exact hSign
  · have hNone : more = [] ∧ after = [] := by
      cases more with
      | cons d more => exact absurd rfl hTake
      | nil =>
          cases after with
          | cons d after => exact absurd rfl hTake
          | nil => exact ⟨rfl, rfl⟩
    rcases hNone with ⟨rfl, rfl⟩
    unfold sign at hSign
    dsimp only at hSign
    split at hSign
    · rename_i kind hLong
      cases hSign
      have hLength : 2 = [c].length :=
        (length_of_lookup hLong).symm.trans (congrArg List.length hText)
      cases hLength
    · split at hSign
      · rename_i kind hShort
        cases hSign
        simp only [List.append_nil, sign, List.take_nil, lookup_single,
          hShort]
      · cases hSign

/- A lexeme is read again from a text that is cut short after it. -/
theorem next_shorter
    (hNext : next ended c (more ++ (after ++ rest)) = .ok lexeme)
    (hText : lexeme.text = c :: more) :
    next ended c (more ++ after) = .ok lexeme := by
  by_cases hQuote : c = '"' ∨ c = '\''
  · exact next_quoted hQuote hNext hText after
  rcases not_or.mp hQuote with ⟨hDouble, hSingle⟩
  by_cases hBlank : c.isBlank = true
  · rw [next, if_pos hBlank] at hNext ⊢
    exact hNext
  by_cases hComment : c = '#'
  · rw [next, if_neg hBlank, if_pos hComment] at hNext ⊢
    cases hNext
    rw [comment_shorter hText]
  rw [next, if_neg hBlank, if_neg hComment, if_neg hDouble,
    if_neg hSingle] at hNext ⊢
  by_cases hNumber :
      numberAhead ended c (more ++ (after ++ rest)) = true
  · rw [if_pos hNumber] at hNext
    rcases number_shorter hNumber hNext hText with ⟨hAhead, hSame⟩
    rw [if_pos hAhead]
    exact hSame
  · have hAhead : ¬ numberAhead ended c (more ++ after) = true := by
      intro hAhead
      apply hNumber
      rw [← List.append_assoc]
      exact numberAhead_append hAhead rest
    rw [if_neg hNumber] at hNext
    rw [if_neg hAhead]
    by_cases hLetter : c.isAsciiLetter = true
    · rw [if_pos hLetter] at hNext ⊢
      cases hNext
      rw [word_shorter hText]
    · rw [if_neg hLetter] at hNext ⊢
      exact sign_shorter hNext hText

end Lexeme

end ExperimentScript
