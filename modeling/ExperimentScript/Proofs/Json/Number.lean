import ExperimentScript.Proofs.Json.Ascii
import ExperimentScript.Proofs.Number.Notation

/-
  Numbers in JSON and back.

  JSON allows no zero before other digits and no point without
  a digit before it. The texts of integers and of finite
  floating-point numbers keep to this, so each is the longest
  JSON number at its place and is read as its number.

  Key definitions include:
    * `ExperimentScript.Text.LeadsPlain`

  Main declarations:
    * `ExperimentScript.Json.number_ofInt`
    * `ExperimentScript.Json.number_toText`
-/

namespace ExperimentScript

------------------------------------------------------------
-- Leading Digits
------------------------------------------------------------

namespace Text

/- A text begins with a digit, and with a zero only if no digit follows. -/
def LeadsPlain (text : Text) : Prop :=
  ∃ (c : CodePoint) (rest : Text),
    text = c :: rest ∧ c.isAsciiDigit = true ∧
      (c = '0' → ∀ d ∈ rest.head?, d.isAsciiDigit = false)

theorem leadsPlain_of_ne
    {c : CodePoint}
    (hDigit : c.isAsciiDigit = true)
    (hZero : c ≠ '0')
    (rest : Text) :
    LeadsPlain (c :: rest) :=
  ⟨c, rest, rfl, hDigit, fun hEqual => absurd hEqual hZero⟩

/- The digits of a number above zero begin with one that is not zero. -/
theorem exists_head_ofNat
    {n : Nat}
    (hPositive : 0 < n) :
    ∃ (c : CodePoint) (rest : Text),
      ofNat n = c :: rest ∧ c ≠ '0' := by
  induction n using Nat.strongRecOn with
  | ind n ih =>
      by_cases hSmall : n < 10
      · refine ⟨.char n.digitChar, [], ?_, ?_⟩
        · rw [ofNat, Nat.toDigits_of_lt_base hSmall]
          rfl
        · intro hZero
          injection hZero with hZero
          have hNone := Nat.digitChar_eq_zero.mp hZero
          omega
      · rcases ih (n / 10) (by omega) (by omega) with
          ⟨c, rest, hDigits, hZero⟩
        have hSplit :
            ofNat n = ofNat (n / 10) ++ [.char (n % 10).digitChar] := by
          rw [ofNat, ofNat,
            Nat.toDigits_of_base_le (by decide) (by omega),
            List.map_append]
          rfl
        rw [hSplit, hDigits]
        exact ⟨c, _, rfl, hZero⟩

theorem leadsPlain_ofNat (n : Nat) : LeadsPlain (ofNat n) := by
  by_cases hZero : n = 0
  · subst hZero
    exact ⟨'0', [], rfl, rfl, fun _ _ hMem => by cases hMem⟩
  · rcases exists_head_ofNat (Nat.pos_of_ne_zero hZero) with
      ⟨c, rest, hDigits, hHead⟩
    have hDigit : c.isAsciiDigit = true :=
      allDigits_ofNat n c (by rw [hDigits]; exact List.mem_cons_self)
    rw [hDigits]
    exact leadsPlain_of_ne hDigit hHead rest

/- An integer is written with such digits after its sign. -/
theorem exists_leadsPlain_ofInt (n : Int) :
    ∃ sign text : Text,
      (sign = [] ∨ sign = "-") ∧ text.LeadsPlain ∧
        ofInt n = sign ++ text := by
  cases n with
  | ofNat n =>
      exact ⟨[], ofNat n, .inl rfl, leadsPlain_ofNat n, rfl⟩
  | negSucc n =>
      exact ⟨"-", ofNat (n + 1), .inr rfl, leadsPlain_ofNat (n + 1), rfl⟩

end Text

namespace Binary64

/- What is left of digits begins as they did. -/
theorem exists_head_trimZeros
    {c : CodePoint}
    (rest : Text)
    (hZero : c ≠ '0') :
    ∃ more, trimZeros (c :: rest) = c :: more := by
  rcases exists_trimZeros (c :: rest) with ⟨count, hSplit⟩
  cases hTrimmed : trimZeros (c :: rest) with
  | nil =>
      rw [hTrimmed, List.nil_append] at hSplit
      have hMem : c ∈ zeros count := by
        rw [← hSplit]
        exact List.mem_cons_self
      exact absurd (List.eq_of_mem_replicate hMem) hZero
  | cons d more =>
      rw [hTrimmed] at hSplit
      injection hSplit with hHead _
      exact ⟨more, by rw [hHead]⟩

theorem leadsPlain_positiveText
    {magnitude : Nat}
    (hMagnitude : 0 < magnitude)
    (hFinite : magnitude < infinityBits) :
    Text.LeadsPlain (positiveText magnitude) := by
  rcases Text.exists_head_ofNat
      (digits_shortest_pos hMagnitude hFinite) with
    ⟨c, rest, hDigits, hZero⟩
  have hDigit : c.isAsciiDigit = true := by
    refine Text.allDigits_ofNat (shortest magnitude).digits c ?_
    rw [hDigits]
    exact List.mem_cons_self
  rcases exists_head_trimZeros rest hZero with
    ⟨more, hTrimmed⟩
  unfold positiveText
  dsimp only
  rw [hDigits, hTrimmed]
  generalize (shortest magnitude).exponent +
    ((c :: rest).length : Int) = place
  split
  · unfold positional
    split
    · exact Text.leadsPlain_of_ne hDigit hZero _
    · refine ⟨'0', _, rfl, rfl, fun _ d hMem => ?_⟩
      cases hMem
      rfl
  · exact Text.leadsPlain_of_ne hDigit hZero _

/- The text of a finite number is a sign and leads as in JSON after it. -/
theorem exists_leadsPlain_toText
    {x : Binary64}
    (hFinite : x.isFinite = true) :
    ∃ sign text : Text,
      (sign = [] ∨ sign = "-") ∧ text.LeadsPlain ∧
        x.toText = sign ++ text := by
  have hBits : x.magnitude < infinityBits := by
    simpa [isFinite] using hFinite
  have hNumber : x.isNan = false := by
    simp only [isNan, decide_eq_false_iff_not]
    omega
  have hSign :
      (if x.negative then "-" else [] : Text) = [] ∨
        (if x.negative then "-" else [] : Text) = "-" := by
    cases x.negative
    · exact .inl rfl
    · exact .inr rfl
  by_cases hZero : x.magnitude = 0
  · refine ⟨_, "0.0", hSign, ?_, ?_⟩
    · exact ⟨'0', _, rfl, rfl, fun _ d hMem => by cases hMem; rfl⟩
    · simp [toText, hNumber, hFinite, hZero]
  · refine
      ⟨_, _, hSign,
        leadsPlain_positiveText (Nat.pos_of_ne_zero hZero) hBits, ?_⟩
    simp [toText, hNumber, hFinite, hZero]

end Binary64

------------------------------------------------------------
-- Reading
------------------------------------------------------------

namespace Json

/- The whole digits of a number that leads as in JSON are taken as one. -/
theorem wholePart_append
    (numeral : Numeral)
    {rest : Text}
    (hPlain :
      Text.LeadsPlain
        (numeral.whole ++ numeral.fraction ++ numeral.exponent))
    (hApart : rest.Apart) :
    wholePart
          (numeral.whole ++
            (numeral.fraction ++ (numeral.exponent ++ rest))) =
        numeral.whole ∧
      numeral.whole ≠ [] := by
  have hTaken :=
    numeral.takeWhile_whole fun _ _ => Lexeme.apart_isAsciiDigit hApart
  rcases hPlain with ⟨c, tail, hText, hDigit, hZero⟩
  cases hWhole : numeral.whole with
  | nil =>
      rw [hWhole, List.nil_append] at hText
      rcases numeral.fraction_form with
        hNone | ⟨digits, _, _, hSome⟩
      · exact absurd ⟨hWhole, hNone⟩ numeral.not_empty
      · rw [hSome] at hText
        cases hText
        cases hDigit
  | cons d digits =>
      rw [hWhole] at hText hTaken
      refine ⟨?_, by simp⟩
      injection hText with hHead hTail
      subst hHead
      by_cases hLeading : d = '0'
      · -- A zero stands alone, for what follows it is no digit.
        subst hLeading
        cases digits with
        | nil => rfl
        | cons e digits =>
            have hNext : e.isAsciiDigit = false :=
              hZero rfl e (by rw [← hTail]; rfl)
            have hForm :=
              numeral.whole_form e (by rw [hWhole]; simp)
            rw [hForm] at hNext
            cases hNext
      · rw [List.cons_append, wholePart.eq_def]
        split
        · rename_i hFront
          injection hFront with hEqual _
          exact absurd hEqual hLeading
        · exact hTaken

/-
  A number that leads as in JSON, with nothing to continue it,
  is the longest JSON number at its place.
-/
theorem numberPart?_append
    {numeral : Numeral}
    {rest : Text}
    (hSign : numeral.sign = [] ∨ numeral.sign = "-")
    (hPlain :
      Text.LeadsPlain
        (numeral.whole ++ numeral.fraction ++ numeral.exponent))
    (hApart : rest.Apart) :
    numberPart? (numeral.text ++ rest) = some numeral.text := by
  have hWhole := wholePart_append numeral hPlain hApart
  have hTakenSign :
      (if (numeral.text ++ rest).head? = some '-'
        then "-" else [] : Text) = numeral.sign := by
    change
      (if (numeral.text ++ rest).head? = some (CodePoint.char '-')
        then "-" else [] : Text) = numeral.sign
    rcases hSign with hNone | hMinus
    · rcases hPlain with ⟨c, tail, hText, hDigit, _⟩
      have hHead : c ≠ '-' := by
        rintro rfl
        cases hDigit
      rw [Numeral.text, hNone, List.nil_append, hText, List.cons_append,
        List.head?_cons, if_neg (by simpa using hHead)]
    · rw [Numeral.text, hMinus]
      rfl
  unfold numberPart?
  simp only [hTakenSign]
  simp only [Numeral.text, List.append_assoc, List.drop_left,
    hWhole.1,
    numeral.fractionPart_append fun _ => Lexeme.apart_fraction hApart,
    numeral.exponentPart_append hApart, List.isEmpty_iff, hWhole.2,
    if_false]

/- Such a number is read as its value. -/
theorem number_of_numeral
    {numeral : Numeral}
    {rest : Text}
    {value : Value}
    (hSign : numeral.sign = [] ∨ numeral.sign = "-")
    (hPlain :
      Text.LeadsPlain
        (numeral.whole ++ numeral.fraction ++ numeral.exponent))
    (hValue : Lexeme.numberValue numeral.text = .ok value)
    (hApart : rest.Apart) :
    number (numeral.text ++ rest) = .ok (value, rest) := by
  have hPart := numberPart?_append hSign hPlain hApart
  unfold number
  simp only [bind, StateT.bind, Except.bind, get, getThe,
    MonadStateOf.get, StateT.get, pure, Except.pure, hPart, hValue,
    List.drop_left]
  rfl

/-
  A number is read as its value if it is written as a sign and
  a text that leads as in JSON.
-/
theorem number_of_signed
    {numeral : Numeral}
    {sign text rest : Text}
    {value : Value}
    (hSign : sign = [] ∨ sign = "-")
    (hNumeral : numeral.sign = [] ∨ numeral.sign = "-")
    (hText : numeral.text = sign ++ text)
    (hPlain : text.LeadsPlain)
    (hValue : Lexeme.numberValue numeral.text = .ok value)
    (hApart : rest.Apart) :
    number (sign ++ text ++ rest) = .ok (value, rest) := by
  have hParts :
      numeral.sign ++
          (numeral.whole ++ numeral.fraction ++ numeral.exponent) =
        sign ++ text := by
    rw [← hText, Numeral.text]
    simp only [List.append_assoc]
  -- Digits begin the text, so both signs are the minus or neither is.
  have hSame :
      numeral.whole ++ numeral.fraction ++ numeral.exponent =
        text := by
    have hUnsigned := numeral.signPart_whole numeral.exponent
    rcases hPlain with ⟨c, tail, rfl, hDigit, _⟩
    have hHead : c ≠ '-' := by
      rintro rfl
      cases hDigit
    rcases hSign with rfl | rfl
    · rcases hNumeral with hNone | hMinus
      · simpa [hNone] using hParts
      · rw [hMinus] at hParts
        injection hParts with hEqual _
        exact absurd hEqual.symm hHead
    · rcases hNumeral with hNone | hMinus
      · rw [hNone, List.nil_append] at hParts
        rw [← List.append_assoc, hParts] at hUnsigned
        cases hUnsigned
      · rw [hMinus] at hParts
        exact List.append_cancel_left hParts
  rw [← hSame] at hPlain
  rw [← hText]
  exact number_of_numeral hNumeral hPlain hValue hApart

/- An integer within bounds is read as it was written. -/
theorem number_ofInt
    {n : Int}
    {rest : Text}
    (hBound : n.natAbs < 10 ^ Text.maxIntegerDigits)
    (hApart : rest.Apart) :
    number (Text.ofInt n ++ rest) = .ok (.int n, rest) := by
  rcases Text.exists_numeral_ofInt hBound with
    ⟨numeral, hText, hSign, hValue⟩
  rcases Text.exists_leadsPlain_ofInt n with
    ⟨sign, text, hOwnSign, hPlain, hOwn⟩
  rw [hOwn] at hText ⊢
  exact number_of_signed hOwnSign hSign hText hPlain hValue hApart

/- A finite floating-point number is read as it was written. -/
theorem number_toText
    {x : Binary64}
    {rest : Text}
    (hFinite : x.isFinite = true)
    (hApart : rest.Apart) :
    number (x.toText ++ rest) = .ok (.float x, rest) := by
  rcases Binary64.exists_numeral_toText hFinite with
    ⟨numeral, hText, hSign, hValue⟩
  rcases Binary64.exists_leadsPlain_toText hFinite with
    ⟨sign, text, hOwnSign, hPlain, hOwn⟩
  rw [hOwn] at hText ⊢
  exact number_of_signed hOwnSign hSign hText hPlain hValue hApart

end Json

end ExperimentScript
