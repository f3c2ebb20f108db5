import Mathlib.Algebra.Group.Int.Defs
import Mathlib.Algebra.Group.Nat.Defs
import ExperimentScript.Lexer
import ExperimentScript.Proofs.Script.Shape

/-
  The parts of a written number: a sign, whole digits, a
  fraction and an exponent. The longest number at the front
  of a text is made of such parts, and parts that nothing
  continues are the longest number at their place.

  Key definitions include:
    * `ExperimentScript.Numeral`
    * `ExperimentScript.Text.AllDigits`

  Main declarations:
    * `ExperimentScript.Lexeme.numberPart?_eq_some`
    * `ExperimentScript.Numeral.numberPart?_append`
    * `ExperimentScript.Lexeme.isBounded_of_numberValue`
-/

namespace ExperimentScript

------------------------------------------------------------
-- Digits
------------------------------------------------------------

namespace Text

/- A text of decimal digits. -/
def AllDigits (text : Text) : Prop :=
  ∀ c ∈ text, c.isAsciiDigit = true

theorem AllDigits.append
    {digits others : Text}
    (hDigits : digits.AllDigits)
    (hOthers : others.AllDigits) :
    AllDigits (digits ++ others) := by
  intro c hMem
  rcases List.mem_append.mp hMem with hLeft | hRight
  · exact hDigits c hLeft
  · exact hOthers c hRight

theorem allDigits_takeWhile (text : Text) :
    AllDigits (text.takeWhile CodePoint.isAsciiDigit) :=
  List.all_eq_true.mp (List.all_takeWhile (l := text))

/- The value of a decimal digit is below ten. -/
theorem hexValue?_lt_ten
    {c : CodePoint}
    (hDigit : c.isAsciiDigit = true) :
    c.hexValue?.getD 0 < 10 := by
  cases c with
  | surrogate offset => simp [CodePoint.isAsciiDigit] at hDigit
  | char c =>
      simp only [CodePoint.isAsciiDigit, Char.isDigit,
        Bool.and_eq_true, decide_eq_true_eq] at hDigit
      have hRange : '0' ≤ c ∧ c ≤ '9' := by
        exact ⟨hDigit.1, hDigit.2⟩
      have hUpper : c.toNat ≤ 57 := hDigit.2
      simp only [CodePoint.hexValue?, hRange, and_self, if_true,
        Option.getD_some]
      have hZero : '0'.toNat = 48 := rfl
      omega

/- Digits read after a number put their own after it. -/
theorem foldl_digits_lt
    {digits : Text}
    (hDigits : digits.AllDigits)
    (start : Nat) :
    digits.foldl
        (fun n (c : CodePoint) => n * 10 + c.hexValue?.getD 0)
        start <
      (start + 1) * 10 ^ digits.length := by
  induction digits generalizing start with
  | nil => simp
  | cons c digits ih =>
      have hFirst := hexValue?_lt_ten (hDigits c (by simp))
      have hRest : AllDigits digits :=
        fun d hMem => hDigits d (by simp [hMem])
      refine Nat.lt_of_lt_of_le (ih hRest _) ?_
      calc
        (start * 10 + c.hexValue?.getD 0 + 1) * 10 ^ digits.length
          ≤ ((start + 1) * 10) * 10 ^ digits.length :=
            Nat.mul_le_mul_right _ (by omega)
        _ = (start + 1) * 10 ^ (c :: digits).length := by
            rw [List.length_cons, Nat.pow_succ, Nat.mul_assoc,
              Nat.mul_comm 10]

/- A number of so many digits is below that power of ten. -/
theorem toNat_lt
    {digits : Text}
    (hDigits : digits.AllDigits) :
    digits.toNat < 10 ^ digits.length := by
  simpa [toNat, toNatBase] using foldl_digits_lt hDigits 0

end Text

------------------------------------------------------------
-- Parts
------------------------------------------------------------

open Text (AllDigits)

/-
  The parts of a number: a sign, whole digits, a point with
  digits after it, and a mark with a signed exponent. All
  parts may be absent, but not both the whole digits and the
  fraction.
-/
structure Numeral where
  sign : Text
  whole : Text
  fraction : Text
  exponent : Text
  sign_form : sign = [] ∨ sign = "+" ∨ sign = "-"
  whole_form : whole.AllDigits
  fraction_form :
    fraction = [] ∨ ∃ digits : Text,
      digits ≠ [] ∧ digits.AllDigits ∧
        fraction = .char '.' :: digits
  exponent_form :
    exponent = [] ∨ ∃ (mark : CodePoint) (expSign digits : Text),
      (mark = 'e' ∨ mark = 'E') ∧
        (expSign = [] ∨ expSign = "+" ∨ expSign = "-") ∧
        digits ≠ [] ∧ digits.AllDigits ∧
        exponent = mark :: expSign ++ digits
  not_empty : ¬ (whole = [] ∧ fraction = [])

/- The text that the parts make up. -/
def Numeral.text (numeral : Numeral) : Text :=
  numeral.sign ++ numeral.whole ++ numeral.fraction ++
    numeral.exponent

/- What holds of digits and of the other marks holds all through. -/
theorem Numeral.forall_mem_text
    {good : CodePoint → Prop}
    (hDigit : ∀ c, c.isAsciiDigit = true → good c)
    (hMark : ∀ c ∈ ("+-.eE" : Text), good c)
    (numeral : Numeral) :
    ∀ c ∈ numeral.text, good c := by
  have hSigns :
      ∀ sign : Text, sign = [] ∨ sign = "+" ∨ sign = "-" →
        ∀ c ∈ sign, good c := by
    rintro sign (rfl | rfl | rfl) c hMem
    · cases hMem
    · cases List.mem_singleton.mp hMem
      exact hMark _ (by decide)
    · cases List.mem_singleton.mp hMem
      exact hMark _ (by decide)
  have hDigits :
      ∀ digits : Text, digits.AllDigits → ∀ c ∈ digits, good c :=
    fun digits hAll c hMem => hDigit c (hAll c hMem)
  have hFraction : ∀ c ∈ numeral.fraction, good c := by
    rcases numeral.fraction_form with hEmpty | ⟨digits, _, hAll, hPart⟩
    · rw [hEmpty]
      exact fun c hMem => absurd hMem List.not_mem_nil
    · rw [hPart]
      exact List.forall_mem_cons.mpr
        ⟨hMark _ (by decide), hDigits digits hAll⟩
  have hExponent : ∀ c ∈ numeral.exponent, good c := by
    rcases numeral.exponent_form with
      hEmpty | ⟨mark, sign, digits, hLetter, hSign, _, hAll, hPart⟩
    · rw [hEmpty]
      exact fun c hMem => absurd hMem List.not_mem_nil
    · rw [hPart]
      refine List.forall_mem_cons.mpr ⟨?_, List.forall_mem_append.mpr
        ⟨hSigns sign hSign, hDigits digits hAll⟩⟩
      rcases hLetter with rfl | rfl
      · exact hMark _ (by decide)
      · exact hMark _ (by decide)
  intro c hMem
  simp only [Numeral.text, List.mem_append] at hMem
  rcases hMem with ((hSign | hWhole) | hIn) | hIn
  · exact hSigns _ numeral.sign_form c hSign
  · exact hDigits _ numeral.whole_form c hWhole
  · exact hFraction c hIn
  · exact hExponent c hIn

/-
  Nothing at the front of a text continues a number or a name
  that ends just before it.
-/
def Text.Apart (text : Text) : Prop :=
  ∀ c ∈ text.head?, c.continuesName = false ∧ c ≠ '.'

namespace Lexeme

------------------------------------------------------------
-- Parts At The Front Of A Text
------------------------------------------------------------

/- What is taken as a sign is a sign or nothing. -/
theorem signPart_form (text : Text) :
    signPart text = [] ∨ signPart text = "+" ∨
      signPart text = "-" := by
  unfold signPart
  split
  · exact .inr (.inl rfl)
  · exact .inr (.inr rfl)
  · exact .inl rfl

/- What is taken as a fraction is one or nothing. -/
theorem fractionPart_form (text : Text) :
    fractionPart text = [] ∨ ∃ digits : Text,
      digits ≠ [] ∧ digits.AllDigits ∧
        fractionPart text = .char '.' :: digits := by
  unfold fractionPart
  split
  · rename_i rest
    split
    · exact .inl rfl
    · rename_i digits hDigits
      exact .inr
        ⟨_, fun hNil => hDigits hNil,
          Text.allDigits_takeWhile rest, rfl⟩
  · exact .inl rfl

/- What is taken as an exponent is one or nothing. -/
theorem exponentPart_form (text : Text) :
    exponentPart text = [] ∨
      ∃ (mark : CodePoint) (expSign digits : Text),
        (mark = 'e' ∨ mark = 'E') ∧
          (expSign = [] ∨ expSign = "+" ∨ expSign = "-") ∧
          digits ≠ [] ∧ digits.AllDigits ∧
          exponentPart text = mark :: expSign ++ digits := by
  unfold exponentPart
  split
  · rename_i mark rest
    split
    · rename_i hMark
      dsimp only
      split
      · exact .inl rfl
      · rename_i hDigits
        exact .inr
          ⟨mark, signPart rest, _, hMark, signPart_form rest,
            fun hNil => hDigits hNil,
            Text.allDigits_takeWhile _, rfl⟩
    · exact .inl rfl
  · exact .inl rfl

/- The longest number at the front of a text has the parts of a number. -/
theorem numberPart?_eq_some
    {text written : Text}
    (hWritten : numberPart? text = some written) :
    ∃ numeral : Numeral, numeral.text = written := by
  simp only [numberPart?] at hWritten
  split at hWritten
  · cases hWritten
  · rename_i hPresent
    cases hWritten
    refine
      ⟨⟨_, _, _, _, signPart_form _,
        Text.allDigits_takeWhile _, fractionPart_form _,
        exponentPart_form _, ?_⟩, rfl⟩
    simpa [Bool.and_eq_true, List.isEmpty_iff] using hPresent

------------------------------------------------------------
-- Parts With Something After Them
------------------------------------------------------------

/- The digits before something that is no digit. -/
theorem takeWhile_digits_append
    {digits rest : Text}
    (hDigits : digits.AllDigits)
    (hRest : ∀ c ∈ rest.head?, c.isAsciiDigit = false) :
    (digits ++ rest).takeWhile CodePoint.isAsciiDigit = digits := by
  rw [List.takeWhile_append_of_pos hDigits]
  cases rest with
  | nil => simp
  | cons c rest =>
      have hFirst : c.isAsciiDigit = false := hRest c rfl
      simp [hFirst]

/- Digits do not begin with a sign. -/
theorem signPart_digits
    {digits : Text}
    (hDigits : digits.AllDigits)
    (hNotEmpty : digits ≠ [])
    (rest : Text) :
    signPart (digits ++ rest) = [] := by
  cases digits with
  | nil => exact absurd rfl hNotEmpty
  | cons c digits =>
      have hFirst := hDigits c (by simp)
      simp only [List.cons_append, signPart]
      split
      · simp_all [CodePoint.isAsciiDigit]
      · simp_all [CodePoint.isAsciiDigit]
      · rfl

/- A sign before something that begins with none. -/
theorem signPart_append
    {sign rest : Text}
    (hSign : sign = [] ∨ sign = "+" ∨ sign = "-")
    (hRest : signPart rest = []) :
    signPart (sign ++ rest) = sign := by
  rcases hSign with rfl | rfl | rfl
  · exact hRest
  · rfl
  · rfl

/- A fraction before something that does not continue it. -/
theorem fractionPart_append
    {fraction rest : Text}
    (hFraction :
      fraction = [] ∨ ∃ digits : Text,
        digits ≠ [] ∧ digits.AllDigits ∧
          fraction = .char '.' :: digits)
    (hDigit : ∀ c ∈ rest.head?, c.isAsciiDigit = false)
    (hPoint : ∀ c ∈ rest.head?, c ≠ '.') :
    fractionPart (fraction ++ rest) = fraction := by
  rcases hFraction with rfl | ⟨digits, hNotEmpty, hDigits, rfl⟩
  · rw [List.nil_append, fractionPart.eq_def]
    split
    · exact absurd rfl (hPoint _ rfl)
    · rfl
  · simp only [List.cons_append, fractionPart,
      takeWhile_digits_append hDigits hDigit]

/- An exponent before something that does not continue it. -/
theorem exponentPart_append
    {exponent rest : Text}
    (hExponent :
      exponent = [] ∨
        ∃ (mark : CodePoint) (expSign digits : Text),
          (mark = 'e' ∨ mark = 'E') ∧
            (expSign = [] ∨ expSign = "+" ∨ expSign = "-") ∧
            digits ≠ [] ∧ digits.AllDigits ∧
            exponent = mark :: expSign ++ digits)
    (hDigit : ∀ c ∈ rest.head?, c.isAsciiDigit = false)
    (hMark : ∀ c ∈ rest.head?, ¬ (c = 'e' ∨ c = 'E')) :
    exponentPart (exponent ++ rest) = exponent := by
  rcases hExponent with
    rfl | ⟨mark, expSign, digits, hIsMark, hSign, hNotEmpty,
      hDigits, rfl⟩
  · rw [List.nil_append, exponentPart.eq_def]
    split
    · rename_i c rest
      rw [if_neg (hMark c rfl)]
    · rfl
  · have hSignPart :
        signPart (expSign ++ (digits ++ rest)) = expSign :=
      signPart_append hSign
        (signPart_digits hDigits hNotEmpty rest)
    have hTaken :=
      takeWhile_digits_append hDigits hDigit
    simp only [List.cons_append, List.append_assoc, exponentPart,
      if_pos hIsMark, hSignPart, List.drop_left, hTaken]

/- No number continues into what is apart from it. -/
theorem apart_isAsciiDigit
    {rest : Text}
    (hApart : rest.Apart) :
    ∀ c ∈ rest.head?, c.isAsciiDigit = false := by
  intro c hMem
  have hName := (hApart c hMem).1
  simp only [CodePoint.continuesName, Bool.or_eq_false_iff] at hName
  exact hName.1.2

/- No number has its fraction in what is apart from it. -/
theorem apart_fraction
    {rest : Text}
    (hApart : rest.Apart) :
    ∀ c ∈ rest.head?, c.isAsciiDigit = false ∧ c ≠ '.' :=
  fun c hMem =>
    ⟨apart_isAsciiDigit hApart c hMem, (hApart c hMem).2⟩

/- No exponent begins in what is apart from a number. -/
theorem apart_exponentMark
    {rest : Text}
    (hApart : rest.Apart) :
    ∀ c ∈ rest.head?, ¬ (c = 'e' ∨ c = 'E') := by
  intro c hMem hMark
  have hName := (hApart c hMem).1
  rcases hMark with rfl | rfl
  · revert hName
    decide
  · revert hName
    decide

end Lexeme

namespace Numeral

variable (numeral : Numeral)

/- An exponent begins with neither a digit nor a point. -/
theorem head_exponent
    (hExponent : numeral.exponent ≠ [])
    (rest : Text) :
    ∀ c ∈ (numeral.exponent ++ rest).head?,
      c.isAsciiDigit = false ∧ c ≠ '.' := by
  rcases numeral.exponent_form with
    hNone | ⟨mark, _, _, hMark, _, _, _, hSome⟩
  · exact absurd hNone hExponent
  · rw [hSome]
    rintro c ⟨⟩
    rcases hMark with rfl | rfl
    · exact ⟨rfl, by decide⟩
    · exact ⟨rfl, by decide⟩

/- What comes after the whole digits begins with no digit. -/
theorem head_fraction
    {rest : Text}
    (hRest :
      numeral.fraction = [] → numeral.exponent = [] →
        ∀ c ∈ rest.head?, c.isAsciiDigit = false) :
    ∀ c ∈ (numeral.fraction ++ (numeral.exponent ++ rest)).head?,
      c.isAsciiDigit = false := by
  rcases numeral.fraction_form with hNone | ⟨_, -, -, hSome⟩
  · rw [hNone, List.nil_append]
    by_cases hExponent : numeral.exponent = []
    · rw [hExponent, List.nil_append]
      exact hRest hNone hExponent
    · exact fun c hMem => (numeral.head_exponent hExponent rest c hMem).1
  · rw [hSome]
    rintro c ⟨⟩
    rfl

/- What comes after the sign does not begin with one. -/
theorem signPart_whole (rest : Text) :
    Lexeme.signPart
        (numeral.whole ++ (numeral.fraction ++ rest)) = [] := by
  by_cases hWhole : numeral.whole = []
  · rcases numeral.fraction_form with
      hNone | ⟨digits, _, _, hSome⟩
    · exact absurd ⟨hWhole, hNone⟩ numeral.not_empty
    · rw [hWhole, hSome]
      rfl
  · exact
      Lexeme.signPart_digits numeral.whole_form hWhole _

/- The whole digits end where a fraction, an exponent or no digit follows. -/
theorem takeWhile_whole
    {rest : Text}
    (hRest :
      numeral.fraction = [] → numeral.exponent = [] →
        ∀ c ∈ rest.head?, c.isAsciiDigit = false) :
    (numeral.whole ++
          (numeral.fraction ++ (numeral.exponent ++ rest))).takeWhile
        CodePoint.isAsciiDigit =
      numeral.whole :=
  Lexeme.takeWhile_digits_append numeral.whole_form
    (numeral.head_fraction hRest)

theorem fractionPart_append
    {rest : Text}
    (hRest :
      numeral.exponent = [] →
        ∀ c ∈ rest.head?, c.isAsciiDigit = false ∧ c ≠ '.') :
    Lexeme.fractionPart
        (numeral.fraction ++ (numeral.exponent ++ rest)) =
      numeral.fraction := by
  have hHead :
      ∀ c ∈ (numeral.exponent ++ rest).head?,
        c.isAsciiDigit = false ∧ c ≠ '.' := by
    by_cases hExponent : numeral.exponent = []
    · rw [hExponent, List.nil_append]
      exact hRest hExponent
    · exact numeral.head_exponent hExponent rest
  exact
    Lexeme.fractionPart_append numeral.fraction_form
      (fun c hMem => (hHead c hMem).1) fun c hMem => (hHead c hMem).2

theorem exponentPart_append
    {rest : Text}
    (hApart : rest.Apart) :
    Lexeme.exponentPart (numeral.exponent ++ rest) =
      numeral.exponent :=
  Lexeme.exponentPart_append numeral.exponent_form
    (Lexeme.apart_isAsciiDigit hApart)
    (Lexeme.apart_exponentMark hApart)

/-
  The parts of a number with nothing to continue them are the
  longest number at their place.
-/
theorem numberPart?_append
    {rest : Text}
    (hApart : rest.Apart) :
    Lexeme.numberPart? (numeral.text ++ rest) =
      some numeral.text := by
  have hSign :
      Lexeme.signPart
          (numeral.sign ++ (numeral.whole ++
            (numeral.fraction ++ (numeral.exponent ++ rest)))) =
        numeral.sign :=
    Lexeme.signPart_append numeral.sign_form
      (numeral.signPart_whole _)
  have hPresent :
      (numeral.whole.isEmpty && numeral.fraction.isEmpty) =
        false := by
    have hNotEmpty := numeral.not_empty
    simpa [Bool.and_eq_false_iff, List.isEmpty_iff,
      Classical.or_iff_not_imp_left] using hNotEmpty
  simp only [Lexeme.numberPart?, text, List.append_assoc, hSign,
    List.drop_left,
    numeral.takeWhile_whole fun _ _ => Lexeme.apart_isAsciiDigit hApart,
    numeral.fractionPart_append fun _ => Lexeme.apart_fraction hApart,
    numeral.exponentPart_append hApart, hPresent]
  rfl

------------------------------------------------------------
-- Integers
------------------------------------------------------------

/- A number without a point or an exponent is a sign and digits. -/
theorem text_of_not_isFloatNotation
    (hInteger :
      Lexeme.isFloatNotation numeral.text = false) :
    numeral.text = numeral.sign ++ numeral.whole ∧
      numeral.whole ≠ [] := by
  have hNoMark :
      ∀ c ∈ numeral.text,
        c ≠ '.' ∧ c ≠ 'e' ∧ c ≠ 'E' := by
    intro c hMem
    have hOther :=
      List.any_eq_false.mp hInteger c hMem
    simpa [and_assoc] using hOther
  have hFraction : numeral.fraction = [] := by
    rcases numeral.fraction_form with
      hNone | ⟨digits, _, _, hSome⟩
    · exact hNone
    · have hPoint : CodePoint.char '.' ∈ numeral.text := by
        simp [text, hSome]
      exact absurd rfl (hNoMark _ hPoint).1
  have hExponent : numeral.exponent = [] := by
    rcases numeral.exponent_form with
      hNone | ⟨mark, expSign, digits, hMark, _, _, _, hSome⟩
    · exact hNone
    · have hMem : mark ∈ numeral.text := by
        simp [text, hSome]
      rcases hMark with rfl | rfl
      · exact absurd rfl (hNoMark _ hMem).2.1
      · exact absurd rfl (hNoMark _ hMem).2.2
  refine ⟨by simp [text, hFraction, hExponent], ?_⟩
  intro hWhole
  exact numeral.not_empty ⟨hWhole, hFraction⟩

/- The integer of a sign and digits is the number of the digits, or its negative. -/
theorem natAbs_signedInteger
    {sign digits : Text}
    (hSign : sign = [] ∨ sign = "+" ∨ sign = "-")
    (hDigits : digits.AllDigits)
    (hNotEmpty : digits ≠ []) :
    (Binary64.signedInteger (sign ++ digits)).natAbs =
      digits.toNat := by
  rcases hSign with rfl | rfl | rfl
  · rw [List.nil_append, Binary64.signedInteger.eq_def]
    split
    · exact absurd (hDigits '-' (by simp)) (by decide)
    · exact absurd (hDigits '+' (by simp)) (by decide)
    · rfl
  · rfl
  · exact Int.natAbs_neg _

end Numeral

------------------------------------------------------------
-- Values
------------------------------------------------------------

namespace Lexeme

/- A number that is accepted is a scalar within bounds. -/
theorem isBounded_of_numberValue
    (numeral : Numeral)
    {value : Value}
    (hValue : numberValue numeral.text = .ok value) :
    value.isScalar = true ∧ value.isBounded = true := by
  simp only [numberValue] at hValue
  split at hValue
  · split at hValue
    · rename_i hFinite
      cases hValue
      exact ⟨rfl, hFinite⟩
    · cases hValue
  · rename_i hNotation
    split at hValue
    · cases hValue
    · rename_i hLength
      cases hValue
      rcases numeral.text_of_not_isFloatNotation
          (by simpa using hNotation) with
        ⟨hText, hNotEmpty⟩
      have hSign :
          signPart (numeral.sign ++ numeral.whole) =
            numeral.sign := by
        apply signPart_append numeral.sign_form
        simpa using
          signPart_digits numeral.whole_form hNotEmpty []
      rw [hText, hSign] at hLength
      have hCount :
          numeral.whole.length ≤ Text.maxIntegerDigits := by
        simp only [List.length_append] at hLength
        omega
      have hBound :=
        Nat.lt_of_lt_of_le (Text.toNat_lt numeral.whole_form)
          (Nat.pow_le_pow_right (by decide) hCount)
      refine ⟨rfl, ?_⟩
      rw [hText]
      simpa [Value.isBounded,
        Numeral.natAbs_signedInteger numeral.sign_form
          numeral.whole_form hNotEmpty] using hBound

end Lexeme

end ExperimentScript
