import ExperimentScript.Proofs.Number.Numeral
import ExperimentScript.Proofs.Number.Shortest

/-
  Numbers in the notation of scripts are read back.

  The text of an integer or of a finite floating-point number
  is a numeral, and the value of that numeral is the number.
  However the point is placed and the digits are padded, what
  is read are the digits that were written at the exponent
  that they were written for.

  Key definitions include:
    * `ExperimentScript.Numeral.Denotes`

  Main declarations:
    * `ExperimentScript.Text.toNat_ofNat`
    * `ExperimentScript.Numeral.ofUnsignedNotation_parts`
    * `ExperimentScript.Binary64.exists_numeral_toText`
    * `ExperimentScript.Text.exists_numeral_ofInt`
-/

namespace ExperimentScript

------------------------------------------------------------
-- Digits Of Natural Numbers
------------------------------------------------------------

namespace Text

theorem allDigits_ofNat (n : Nat) : AllDigits (ofNat n) := by
  intro c hMem
  rcases List.mem_map.mp hMem with ⟨digit, hDigit, rfl⟩
  exact Nat.isDigit_of_mem_toDigits (by decide) (by decide) hDigit

theorem ofNat_ne_nil (n : Nat) : ofNat n ≠ [] := by
  simp [ofNat]

theorem allDigits_zeros (count : Nat) :
    AllDigits (Binary64.zeros count) := by
  intro c hMem
  cases List.eq_of_mem_replicate hMem
  rfl

/- Digits read after a number move it up by as many places. -/
theorem foldl_digits
    (digits : Text)
    (start : Nat) :
    digits.foldl
        (fun n (c : CodePoint) => n * 10 + c.hexValue?.getD 0)
        start =
      start * 10 ^ digits.length + digits.toNat := by
  induction digits generalizing start with
  | nil => simp [toNat, toNatBase]
  | cons c digits ih =>
      have hFirst :
          toNat (c :: digits) =
            c.hexValue?.getD 0 * 10 ^ digits.length +
              toNat digits := by
        rw [toNat, toNatBase, List.foldl_cons, ih,
          Nat.zero_mul, Nat.zero_add]
      rw [List.foldl_cons, ih, hFirst, List.length_cons,
        Nat.pow_succ, Nat.add_mul]
      rw [Nat.mul_assoc, Nat.mul_comm 10, Nat.add_assoc]

theorem toNat_append (digits others : Text) :
    toNat (digits ++ others) =
      digits.toNat * 10 ^ others.length + others.toNat := by
  rw [toNat, toNatBase, List.foldl_append, foldl_digits]
  rfl

theorem toNat_zeros (count : Nat) :
    toNat (Binary64.zeros count) = 0 := by
  induction count with
  | zero => rfl
  | succ count ih =>
      have hSplit :
          Binary64.zeros (count + 1) =
            [.char '0'] ++ Binary64.zeros count := rfl
      rw [hSplit, toNat_append, ih]
      change 0 * _ + 0 = 0
      omega

/- The value of a digit is its distance from zero. -/
theorem hexValue?_of_isDigit
    {c : Char}
    (hDigit : c.isDigit = true) :
    (CodePoint.char c).hexValue?.getD 0 =
      c.toNat - '0'.toNat := by
  simp only [Char.isDigit, Bool.and_eq_true, decide_eq_true_eq]
    at hDigit
  have hRange : '0' ≤ c ∧ c ≤ '9' := hDigit
  simp only [CodePoint.hexValue?, hRange, and_self, if_true,
    Option.getD_some]

/- The digits of a number are read back as it. -/
theorem toNat_ofNat (n : Nat) : toNat (ofNat n) = n := by
  have hFold :
      ∀ (digits : List Char) (start : Nat),
        (∀ c ∈ digits, c.isDigit = true) →
        (digits.map CodePoint.char).foldl
            (fun n (c : CodePoint) =>
              n * 10 + c.hexValue?.getD 0)
            start =
          Nat.ofDigitChars 10 digits start := by
    intro digits
    induction digits with
    | nil => intro start _; rfl
    | cons c digits ih =>
        intro start hDigits
        have hRest : ∀ d ∈ digits, d.isDigit = true :=
          fun d hMem => hDigits d (by simp [hMem])
        rw [List.map_cons, List.foldl_cons, ih _ hRest,
          Nat.ofDigitChars_cons,
          hexValue?_of_isDigit (hDigits c (by simp)),
          Nat.mul_comm start]
  rw [toNat, toNatBase, ofNat,
    hFold _ _ fun c hMem =>
      Nat.isDigit_of_mem_toDigits (by decide) (by decide) hMem]
  exact Nat.ofDigitChars_ten_toDigits

end Text

------------------------------------------------------------
-- Reading The Parts Of A Number
------------------------------------------------------------

open Text (AllDigits)

namespace Numeral

/- Digits are neither marks of exponents nor points. -/
theorem digit_ne
    {c : CodePoint}
    (hDigit : c.isAsciiDigit = true) :
    c ≠ 'e' ∧ c ≠ 'E' ∧ c ≠ '.' := by
  refine ⟨?_, ?_, ?_⟩ <;> rintro rfl <;> cases hDigit

/- No mark of an exponent stands before the exponent. -/
theorem no_mark
    (numeral : Numeral) :
    ∀ c ∈ numeral.whole ++ numeral.fraction,
      c ≠ 'e' ∧ c ≠ 'E' := by
  intro c hMem
  have hDigits :
      ∀ {digits : Text}, AllDigits digits → c ∈ digits →
        c ≠ 'e' ∧ c ≠ 'E' :=
    fun hDigits hIn =>
      ⟨(digit_ne (hDigits c hIn)).1, (digit_ne (hDigits c hIn)).2.1⟩
  rcases List.mem_append.mp hMem with hWhole | hFraction
  · exact hDigits numeral.whole_form hWhole
  · rcases numeral.fraction_form with
      hNone | ⟨digits, -, hAll, hSome⟩
    · rw [hNone] at hFraction
      cases hFraction
    · rw [hSome] at hFraction
      rcases List.mem_cons.mp hFraction with rfl | hIn
      · decide
      · exact hDigits hAll hIn

/-
  What is read from the parts after the sign are the whole
  digits and those of the fraction, at the exponent less the
  number of the latter.
-/
theorem ofUnsignedNotation_parts (numeral : Numeral) :
    Binary64.ofUnsignedNotation
        (numeral.whole ++ numeral.fraction ++
          numeral.exponent) =
      Binary64.ofDecimal
        (Text.toNat (numeral.whole ++ numeral.fraction.drop 1))
        (Binary64.signedInteger (numeral.exponent.drop 1) -
          (numeral.fraction.drop 1).length) := by
  have hMantissa :
      (numeral.whole ++ numeral.fraction ++
          numeral.exponent).takeWhile
          (fun c : CodePoint => !decide (c = 'e' ∨ c = 'E')) =
        numeral.whole ++ numeral.fraction := by
    rw [List.takeWhile_append_of_pos]
    · rcases numeral.exponent_form with
        hNone | ⟨mark, expSign, digits, hMark, -, -, -, hSome⟩
      · simp [hNone]
      · rcases hMark with rfl | rfl <;> simp [hSome]
    · intro c hMem
      have hOther := numeral.no_mark c hMem
      simp [hOther]
  have hWhole :
      (numeral.whole ++ numeral.fraction).takeWhile
          (fun c : CodePoint => decide (c ≠ .char '.')) =
        numeral.whole := by
    rw [List.takeWhile_append_of_pos]
    · rcases numeral.fraction_form with
        hNone | ⟨digits, -, -, hSome⟩
      · simp [hNone]
      · simp [hSome]
    · intro c hMem
      have hOther := (digit_ne (numeral.whole_form c hMem)).2.2
      simpa using hOther
  unfold Binary64.ofUnsignedNotation
  simp only [hMantissa, hWhole, List.drop_length_add_append]

/-
  A numeral without a sign, with a point or an exponent, that
  is read as digits at an exponent.
-/
structure Denotes
    (numeral : Numeral)
    (digits : Nat)
    (exponent : Int) : Prop where
  unsigned : numeral.sign = []
  isFloat : Lexeme.isFloatNotation numeral.text = true
  reads :
    Binary64.ofUnsignedNotation numeral.text =
      Binary64.ofDecimal digits exponent

/- Whole digits, and digits after a point. -/
def pointed
    {whole fraction : Text}
    (hWhole : AllDigits whole)
    (hFraction : AllDigits fraction)
    (hNotEmpty : fraction ≠ []) :
    Numeral where
  sign := []
  whole := whole
  fraction := .char '.' :: fraction
  exponent := []
  sign_form := .inl rfl
  whole_form := hWhole
  fraction_form := .inr ⟨fraction, hNotEmpty, hFraction, rfl⟩
  exponent_form := .inl rfl
  not_empty := fun hEmpty => nomatch hEmpty.2

theorem text_pointed
    {whole fraction : Text}
    (hWhole : AllDigits whole)
    (hFraction : AllDigits fraction)
    (hNotEmpty : fraction ≠ []) :
    (pointed hWhole hFraction hNotEmpty).text =
      whole ++ .char '.' :: fraction := by
  simp [text, pointed]

theorem denotes_pointed
    {whole fraction : Text}
    (hWhole : AllDigits whole)
    (hFraction : AllDigits fraction)
    (hNotEmpty : fraction ≠ []) :
    (pointed hWhole hFraction hNotEmpty).Denotes
      (Text.toNat (whole ++ fraction)) (-fraction.length) := by
  refine ⟨rfl, ?_, ?_⟩
  · simp [text_pointed, Lexeme.isFloatNotation]
  · have hReads :=
      ofUnsignedNotation_parts
        (pointed hWhole hFraction hNotEmpty)
    have hZero : Binary64.signedInteger [] = 0 := rfl
    simpa [text, pointed, hZero] using hReads

/- A first digit, more after a point, and an exponent. -/
def scientific
    {first : CodePoint}
    {fraction : Text}
    (hFirst : first.isAsciiDigit = true)
    (hFraction : AllDigits fraction)
    (isNegative : Bool)
    {digits : Text}
    (hDigits : AllDigits digits)
    (hNotEmpty : digits ≠ []) :
    Numeral where
  sign := []
  whole := [first]
  fraction :=
    if fraction.isEmpty then [] else .char '.' :: fraction
  exponent :=
    .char 'e' ::
      (if isNegative then "-" else "+") ++ digits
  sign_form := .inl rfl
  whole_form := fun c hMem => by
    cases List.mem_singleton.mp hMem
    exact hFirst
  fraction_form := by
    cases fraction with
    | nil => exact .inl rfl
    | cons c rest =>
        exact .inr ⟨c :: rest, by simp, hFraction, rfl⟩
  exponent_form := by
    refine .inr ⟨'e', _, digits, .inl rfl, ?_, hNotEmpty, hDigits, rfl⟩
    cases isNegative
    · exact .inr (.inl rfl)
    · exact .inr (.inr rfl)
  not_empty := fun hEmpty => nomatch hEmpty.1

theorem denotes_scientific
    {first : CodePoint}
    {fraction : Text}
    (hFirst : first.isAsciiDigit = true)
    (hFraction : AllDigits fraction)
    (isNegative : Bool)
    {digits : Text}
    (hDigits : AllDigits digits)
    (hNotEmpty : digits ≠ []) :
    (scientific hFirst hFraction isNegative hDigits
      hNotEmpty).Denotes
      (Text.toNat (first :: fraction))
      ((if isNegative then -(digits.toNat : Int)
        else digits.toNat) - fraction.length) := by
  refine ⟨rfl, ?_, ?_⟩
  · simp [text, scientific, Lexeme.isFloatNotation]
  · have hReads :=
      ofUnsignedNotation_parts
        (scientific hFirst hFraction isNegative hDigits hNotEmpty)
    have hPoint :
        (if fraction.isEmpty then []
          else CodePoint.char '.' :: fraction).drop 1 =
          fraction := by
      cases fraction <;> rfl
    have hExponent :
        Binary64.signedInteger
            ((CodePoint.char 'e' ::
              (if isNegative then "-" else "+" : Text) ++
                digits).drop 1) =
          if isNegative then -(digits.toNat : Int)
          else digits.toNat := by
      cases isNegative <;> rfl
    simp only [scientific] at hReads
    rw [hPoint, hExponent] at hReads
    simpa [text, scientific] using hReads

/- The same numeral after a minus. -/
def negated (numeral : Numeral) : Numeral where
  sign := "-"
  whole := numeral.whole
  fraction := numeral.fraction
  exponent := numeral.exponent
  sign_form := .inr (.inr rfl)
  whole_form := numeral.whole_form
  fraction_form := numeral.fraction_form
  exponent_form := numeral.exponent_form
  not_empty := numeral.not_empty

theorem text_negated
    {numeral : Numeral}
    (hUnsigned : numeral.sign = []) :
    numeral.negated.text = .char '-' :: numeral.text := by
  simp only [text, negated, hUnsigned]
  rfl

/- A numeral without a sign does not begin with one. -/
theorem ofNotation_of_unsigned
    {numeral : Numeral}
    (hUnsigned : numeral.sign = []) :
    Binary64.ofNotation numeral.text =
      ⟨false, Binary64.ofUnsignedNotation numeral.text⟩ := by
  have hNoSign := numeral.signPart_whole numeral.exponent
  have hText :
      numeral.text =
        numeral.whole ++ (numeral.fraction ++
          numeral.exponent) := by
    simp [text, hUnsigned]
  rw [← hText] at hNoSign
  unfold Binary64.ofNotation
  split
  · rename_i rest hRest
    rw [hRest] at hNoSign
    cases hNoSign
  · rename_i rest hRest
    rw [hRest] at hNoSign
    cases hNoSign
  · rfl

end Numeral

------------------------------------------------------------
-- Floating-Point Numbers
------------------------------------------------------------

namespace Binary64

open Numeral

/- Digits are what is left of them and the zeros after that. -/
theorem exists_trimZeros (digits : Text) :
    ∃ count, digits = trimZeros digits ++ zeros count := by
  have hZeros :
      ∀ c ∈ digits.reverse.takeWhile (· = CodePoint.char '0'),
        c = .char '0' := by
    intro c hMem
    have hAll :=
      List.all_eq_true.mp
        (List.all_takeWhile (l := digits.reverse)) c hMem
    simpa using hAll
  have hSplit :=
    List.takeWhile_append_dropWhile
      (p := (· = CodePoint.char '0')) (l := digits.reverse)
  rw [List.eq_replicate_of_mem hZeros] at hSplit
  have hReversed := congrArg List.reverse hSplit
  rw [List.reverse_append, List.reverse_replicate,
    List.reverse_reverse] at hReversed
  exact ⟨_, hReversed.symm⟩

/- Digits of a number above zero are not trimmed to nothing. -/
theorem trimZeros_ne_nil
    {digits : Text}
    (hPositive : 0 < digits.toNat) :
    trimZeros digits ≠ [] := by
  intro hNil
  rcases exists_trimZeros digits with ⟨count, hDigits⟩
  rw [hNil, List.nil_append] at hDigits
  rw [hDigits, Text.toNat_zeros] at hPositive
  omega

theorem allDigits_zero : AllDigits "0" := by
  intro c hMem
  cases List.mem_singleton.mp hMem
  rfl

section Positional

variable {digits : Text}
variable (hDigits : AllDigits digits) (hNotEmpty : digits ≠ [])

include hDigits hNotEmpty

/- Digits after a point and zeros. -/
theorem exists_numeral_below (count : Nat) :
    ∃ numeral : Numeral,
      numeral.text = "0." ++ zeros count ++ digits ∧
        numeral.Denotes digits.toNat
          (-(count : Int) - digits.length) := by
  have hFraction := (Text.allDigits_zeros count).append hDigits
  have hSome : zeros count ++ digits ≠ [] := by
    simp [hNotEmpty]
  refine
    ⟨pointed allDigits_zero hFraction hSome,
      text_pointed allDigits_zero hFraction hSome, ?_⟩
  have hDenotes := denotes_pointed allDigits_zero hFraction hSome
  have hValue :
      Text.toNat ("0" ++ (zeros count ++ digits)) =
        digits.toNat := by
    rw [Text.toNat_append, Text.toNat_append, Text.toNat_zeros]
    change 0 * _ + (0 * _ + _) = _
    omega
  have hLength :
      (zeros count ++ digits).length = count + digits.length := by
    simp [zeros]
  rw [hValue, hLength] at hDenotes
  have hExponent :
      -((count + digits.length : Nat) : Int) =
        -(count : Int) - digits.length := by
    omega
  rw [← hExponent]
  exact hDenotes

omit hNotEmpty in
/- Digits with a point among them. -/
theorem exists_numeral_among
    {place : Nat}
    (hPlace : place < digits.length) :
    ∃ numeral : Numeral,
      numeral.text =
          digits.take place ++ .char '.' :: digits.drop place ∧
        numeral.Denotes digits.toNat
          ((place : Int) - digits.length) := by
  have hWhole : AllDigits (digits.take place) :=
    fun c hMem => hDigits c (List.mem_of_mem_take hMem)
  have hFraction : AllDigits (digits.drop place) :=
    fun c hMem => hDigits c (List.mem_of_mem_drop hMem)
  have hSome : digits.drop place ≠ [] := by
    simpa [List.drop_eq_nil_iff] using hPlace
  refine
    ⟨pointed hWhole hFraction hSome,
      text_pointed hWhole hFraction hSome, ?_⟩
  have hDenotes := denotes_pointed hWhole hFraction hSome
  rw [List.take_append_drop, List.length_drop] at hDenotes
  have hExponent :
      -((digits.length - place : Nat) : Int) =
        (place : Int) - digits.length := by
    omega
  rw [← hExponent]
  exact hDenotes

omit hNotEmpty in
/- Digits before zeros and a point. -/
theorem exists_numeral_above (count : Nat) :
    ∃ numeral : Numeral,
      numeral.text = digits ++ zeros count ++ ".0" ∧
        numeral.Denotes digits.toNat count := by
  have hWhole := hDigits.append (Text.allDigits_zeros count)
  have hSome : ("0" : Text) ≠ [] := by decide
  refine
    ⟨pointed hWhole allDigits_zero hSome,
      text_pointed hWhole allDigits_zero hSome, ?_⟩
  rcases denotes_pointed hWhole allDigits_zero hSome with
    ⟨hUnsigned, hFloat, hReads⟩
  refine ⟨hUnsigned, hFloat, ?_⟩
  have hOne : ("0" : Text).length = 1 := rfl
  have hZero : Text.toNat "0" = 0 := rfl
  have hLength : (zeros count).length = count :=
    List.length_replicate
  have hValue :
      Text.toNat (digits ++ zeros count ++ "0") =
        digits.toNat * 10 ^ (count + 1) := by
    rw [Text.toNat_append, Text.toNat_append, Text.toNat_zeros,
      hZero, hOne, hLength, Nat.add_zero, Nat.add_zero,
      Nat.pow_one, Nat.pow_succ, Nat.mul_assoc]
  rw [hReads, hValue, ofDecimal_shift, hOne]
  congr 1
  omega

/- Digits with a point among or around them. -/
theorem exists_numeral_positional (place : Int) :
    ∃ numeral : Numeral,
      numeral.text = positional digits place ∧
        numeral.Denotes digits.toNat (place - digits.length) := by
  match place with
  | .ofNat 0 => exact exists_numeral_below hDigits hNotEmpty 0
  | .negSucc count =>
      exact exists_numeral_below hDigits hNotEmpty (count + 1)
  | .ofNat (p + 1) =>
      by_cases hLong : p + 1 < digits.length
      · have hNone : p + 1 - digits.length = 0 := by omega
        have hSome : digits.drop (p + 1) ≠ [] := by
          simpa [List.drop_eq_nil_iff] using hLong
        rcases exists_numeral_among hDigits hLong with
          ⟨numeral, hText, hDenotes⟩
        refine ⟨numeral, ?_, hDenotes⟩
        simp [hText, positional, hNone, zeros, hSome]
      · have hCount :
            (digits ++ zeros (p + 1 - digits.length)).length =
              p + 1 := by
          simp only [zeros, List.length_append,
            List.length_replicate]
          omega
        rcases
            exists_numeral_above hDigits (p + 1 - digits.length) with
          ⟨numeral, hText, hDenotes⟩
        refine ⟨numeral, ?_, ?_⟩
        · simp only [positional]
          rw [hText,
            List.take_of_length_le (Nat.le_of_eq hCount),
            List.drop_of_length_le (Nat.le_of_eq hCount),
            List.append_assoc _ [_]]
          rfl
        · have hExponent :
              Int.ofNat (p + 1) - digits.length =
                ((p + 1 - digits.length : Nat) : Int) := by
            rw [Int.ofNat_eq_natCast]
            omega
          rw [hExponent]
          exact hDenotes

/- Digits with a point after the first of them, and an exponent. -/
theorem exists_numeral_scientific (place : Int) :
    ∃ numeral : Numeral,
      numeral.text = scientific digits place ∧
        numeral.Denotes digits.toNat (place - digits.length) := by
  cases digits with
  | nil => exact absurd rfl hNotEmpty
  | cons first fraction =>
      have hFirst := hDigits first (List.mem_cons_self ..)
      have hFraction : AllDigits fraction :=
        fun c hMem => hDigits c (List.mem_cons_of_mem _ hMem)
      generalize hPower : place - 1 = power
      have hExponent :=
        (Text.allDigits_zeros
          (2 - (Text.ofNat power.natAbs).length)).append
            (Text.allDigits_ofNat power.natAbs)
      have hSome :
          zeros (2 - (Text.ofNat power.natAbs).length) ++
            Text.ofNat power.natAbs ≠ [] := by
        simp [Text.ofNat_ne_nil]
      refine
        ⟨Numeral.scientific hFirst hFraction
          (decide (power < 0)) hExponent hSome, ?_, ?_⟩
      · simp only [text, Numeral.scientific, scientific,
          exponentText, hPower]
        by_cases hNegative : power < 0 <;> simp [hNegative] <;> rfl
      · have hDenotes :=
          denotes_scientific hFirst hFraction
            (decide (power < 0)) hExponent hSome
        have hDigitsValue :
            Text.toNat
                (zeros (2 - (Text.ofNat power.natAbs).length) ++
                  Text.ofNat power.natAbs) =
              power.natAbs := by
          rw [Text.toNat_append, Text.toNat_zeros,
            Text.toNat_ofNat, Nat.zero_mul, Nat.zero_add]
        have hValue :
            (if decide (power < 0) = true then
                -(power.natAbs : Int)
              else power.natAbs) - fraction.length =
              place - (first :: fraction).length := by
          rw [List.length_cons]
          split
          · rename_i hNegative
            simp only [decide_eq_true_eq] at hNegative
            omega
          · rename_i hNegative
            simp only [decide_eq_true_eq] at hNegative
            omega
        rw [hDigitsValue, hValue] at hDenotes
        exact hDenotes

end Positional

/- The digits of a finite number above zero, as they are written. -/
theorem exists_numeral_positiveText
    {magnitude : Nat}
    (hMagnitude : 0 < magnitude)
    (hFinite : magnitude < infinityBits) :
    ∃ numeral : Numeral,
      numeral.text = positiveText magnitude ∧
        numeral.sign = [] ∧
        Lexeme.isFloatNotation numeral.text = true ∧
        ofUnsignedNotation numeral.text = magnitude := by
  have hRead := ofDecimal_shortest hMagnitude hFinite
  have hPositive := digits_shortest_pos hMagnitude hFinite
  generalize hShortest : shortest magnitude = found
    at hRead hPositive
  rcases found with ⟨number, exponent⟩
  dsimp only at hRead hPositive
  have hNumber : 0 < (Text.ofNat number).toNat := by
    rw [Text.toNat_ofNat]
    exact hPositive
  have hNotEmpty := trimZeros_ne_nil hNumber
  rcases exists_trimZeros (Text.ofNat number) with
    ⟨count, hWritten⟩
  have hDigits : AllDigits (trimZeros (Text.ofNat number)) := by
    intro c hMem
    refine Text.allDigits_ofNat number c ?_
    rw [hWritten]
    exact List.mem_append_left _ hMem
  have hValue :
      number =
        (trimZeros (Text.ofNat number)).toNat * 10 ^ count := by
    have hSame := congrArg Text.toNat hWritten
    rw [Text.toNat_ofNat, Text.toNat_append, Text.toNat_zeros,
      Nat.add_zero] at hSame
    simpa [zeros] using hSame
  have hLength :
      (Text.ofNat number).length =
        (trimZeros (Text.ofNat number)).length + count := by
    have hSame := congrArg List.length hWritten
    simpa [zeros] using hSame
  generalize hPlace :
    exponent + (Text.ofNat number).length = place
  have hSame :
      ofDecimal (trimZeros (Text.ofNat number)).toNat
          (place - (trimZeros (Text.ofNat number)).length) =
        magnitude := by
    rw [hValue, ofDecimal_shift] at hRead
    rw [← hRead]
    congr 1
    omega
  have hText :
      positiveText magnitude =
        if -4 < place ∧ place ≤ 16 then
          positional (trimZeros (Text.ofNat number)) place
        else scientific (trimZeros (Text.ofNat number)) place := by
    simp only [positiveText, hShortest, hPlace]
  rw [hText]
  split
  · rcases exists_numeral_positional hDigits hNotEmpty place with
      ⟨numeral, hNumeral, hUnsigned, hFloat, hReads⟩
    exact
      ⟨numeral, hNumeral, hUnsigned, hFloat, hReads.trans hSame⟩
  · rcases exists_numeral_scientific hDigits hNotEmpty place with
      ⟨numeral, hNumeral, hUnsigned, hFloat, hReads⟩
    exact
      ⟨numeral, hNumeral, hUnsigned, hFloat, hReads.trans hSame⟩

/- The magnitude of any finite number, as it is written. -/
theorem exists_numeral_magnitude
    {x : Binary64}
    (hFinite : x.isFinite = true) :
    ∃ numeral : Numeral,
      x.toText =
          (if x.negative then "-" else [] : Text) ++
            numeral.text ∧
        numeral.sign = [] ∧
        Lexeme.isFloatNotation numeral.text = true ∧
        ofUnsignedNotation numeral.text = x.magnitude := by
  have hBits : x.magnitude < infinityBits := by
    simpa [isFinite] using hFinite
  have hNumber : x.isNan = false := by
    simp only [isNan, decide_eq_false_iff_not]
    omega
  by_cases hZero : x.magnitude = 0
  · rcases exists_numeral_above allDigits_zero 0 with
      ⟨numeral, hText, hUnsigned, hFloat, hReads⟩
    refine ⟨numeral, ?_, hUnsigned, hFloat, ?_⟩
    · simp only [toText, hNumber, hFinite, hZero, hText]
      rfl
    · rw [hReads, hZero]
      rfl
  · rcases
        exists_numeral_positiveText (Nat.pos_of_ne_zero hZero) hBits with
      ⟨numeral, hText, hUnsigned, hFloat, hReads⟩
    refine ⟨numeral, ?_, hUnsigned, hFloat, hReads⟩
    rw [hText]
    simp [toText, hNumber, hFinite, hZero]

/- The text of a finite number is a numeral that is read back. -/
theorem exists_numeral_toText
    {x : Binary64}
    (hFinite : x.isFinite = true) :
    ∃ numeral : Numeral,
      numeral.text = x.toText ∧
        (numeral.sign = [] ∨ numeral.sign = "-") ∧
        Lexeme.numberValue numeral.text = .ok (.float x) := by
  rcases exists_numeral_magnitude hFinite with
    ⟨numeral, hText, hUnsigned, hFloat, hReads⟩
  have hValue :
      ∀ text : Text,
        Lexeme.isFloatNotation text = true →
        ofNotation text = x →
        Lexeme.numberValue text = .ok (.float x) := by
    intro text hMark hNotation
    simp only [Lexeme.numberValue, hMark, hNotation, hFinite,
      if_true]
  cases hSign : x.negative with
  | false =>
      simp only [hSign, Bool.false_eq_true, if_false,
        List.nil_append] at hText
      refine
        ⟨numeral, hText.symm, .inl hUnsigned,
          hValue _ hFloat ?_⟩
      rw [ofNotation_of_unsigned hUnsigned, hReads, ← hSign]
  | true =>
      simp only [hSign, if_true] at hText
      have hNegated := text_negated hUnsigned
      refine
        ⟨numeral.negated, ?_, .inr rfl, hValue _ ?_ ?_⟩
      · rw [hNegated, hText]
        rfl
      · rw [hNegated]
        simpa [Lexeme.isFloatNotation] using hFloat
      · rw [hNegated]
        change Binary64.mk true _ = x
        rw [hReads, ← hSign]

end Binary64

------------------------------------------------------------
-- Integers
------------------------------------------------------------

namespace Text

/- Digits alone. -/
def digitsNumeral (n : Nat) : Numeral where
  sign := []
  whole := ofNat n
  fraction := []
  exponent := []
  sign_form := .inl rfl
  whole_form := allDigits_ofNat n
  fraction_form := .inl rfl
  exponent_form := .inl rfl
  not_empty := fun hEmpty => ofNat_ne_nil n hEmpty.1

theorem text_digitsNumeral (n : Nat) :
    (digitsNumeral n).text = ofNat n := by
  simp [Numeral.text, digitsNumeral]

/- Digits have neither a point nor an exponent. -/
theorem isFloatNotation_ofNat (n : Nat) :
    Lexeme.isFloatNotation (ofNat n) = false := by
  refine List.any_eq_false.mpr fun c hMem => ?_
  have hOther := Numeral.digit_ne (allDigits_ofNat n c hMem)
  simp [hOther]

/- Few enough digits are those of a number within bounds. -/
theorem length_ofNat_le
    {n : Nat}
    (hBound : n < 10 ^ maxIntegerDigits) :
    (ofNat n).length ≤ maxIntegerDigits := by
  rw [ofNat, List.length_map]
  exact
    (Nat.length_toDigits_le_iff (by decide) (by decide)).mpr
      hBound

/- Digits after a sign, or alone, are read as an integer. -/
theorem numberValue_digits
    {sign : Text}
    {n : Nat}
    (hSign : sign = [] ∨ sign = "-")
    (hBound : n < 10 ^ maxIntegerDigits) :
    Lexeme.numberValue (sign ++ ofNat n) =
      .ok (.int (if sign = [] then n else -(n : Int))) := by
  have hNoSign : Lexeme.signPart (ofNat n) = [] := by
    simpa using
      Lexeme.signPart_digits (allDigits_ofNat n)
        (ofNat_ne_nil n) []
  have hPart : Lexeme.signPart (sign ++ ofNat n) = sign :=
    Lexeme.signPart_append (hSign.imp_right .inr) hNoSign
  have hNotation :
      Lexeme.isFloatNotation (sign ++ ofNat n) = false := by
    have hDigits := isFloatNotation_ofNat n
    rcases hSign with rfl | rfl
    · exact hDigits
    · exact hDigits
  have hLength := length_ofNat_le hBound
  have hInteger :
      Binary64.signedInteger (sign ++ ofNat n) =
        if sign = [] then (n : Int) else -(n : Int) := by
    rcases hSign with rfl | rfl
    · rw [List.nil_append, if_pos rfl,
        Binary64.signedInteger.eq_def]
      split
      · rename_i rest hRest
        rw [hRest] at hNoSign
        cases hNoSign
      · rename_i rest hRest
        rw [hRest] at hNoSign
        cases hNoSign
      · rw [toNat_ofNat]
    · change -(toNat (ofNat n) : Int) = _
      rw [toNat_ofNat]
      rfl
  have hShort :
      ¬ (sign ++ ofNat n).length - sign.length >
        maxIntegerDigits := by
    rw [List.length_append]
    omega
  simp only [Lexeme.numberValue, hNotation, hPart, hShort,
    hInteger, if_false, Bool.false_eq_true]

/- The text of an integer within bounds is a numeral that is read back. -/
theorem exists_numeral_ofInt
    {value : Int}
    (hBound : value.natAbs < 10 ^ maxIntegerDigits) :
    ∃ numeral : Numeral,
      numeral.text = ofInt value ∧
        (numeral.sign = [] ∨ numeral.sign = "-") ∧
        Lexeme.numberValue numeral.text = .ok (.int value) := by
  cases value with
  | ofNat n =>
      refine
        ⟨digitsNumeral n, text_digitsNumeral n, .inl rfl, ?_⟩
      rw [text_digitsNumeral]
      exact numberValue_digits (.inl rfl) hBound
  | negSucc n =>
      refine
        ⟨(digitsNumeral (n + 1)).negated, ?_, .inr rfl, ?_⟩
      · rw [Numeral.text_negated rfl, text_digitsNumeral]
        rfl
      · rw [Numeral.text_negated rfl, text_digitsNumeral]
        exact numberValue_digits (.inr rfl) hBound

end Text

end ExperimentScript
