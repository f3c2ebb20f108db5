import Mathlib.Computability.RegularExpressions
import ExperimentScript.Proofs.Number.Longest

/-
  Numbers as a regular expression describes them.

  The texts that numbers are made of are those that match the
  pattern of numbers. The pattern has digits on both sides of
  a point that may be missing, so that it divides a run of
  digits in several ways, where the parts of a number have it
  as whole digits.

  Key definitions include:
    * `ExperimentScript.Pattern.number`
    * `ExperimentScript.Pattern.IsLongest`

  Main declarations:
    * `ExperimentScript.Pattern.mem_number_iff`
    * `ExperimentScript.Pattern.numberPart?_eq_none_iff`
    * `ExperimentScript.Pattern.isLongest_number_iff`
-/

namespace ExperimentScript

/- A regular expression over code points. -/
abbrev Pattern := RegularExpression CodePoint

namespace Pattern

open Text (AllDigits)

variable {choices text : Text}
variable {pattern : Pattern}

------------------------------------------------------------
-- Patterns
------------------------------------------------------------

/- One of some code points. -/
def oneOf (choices : Text) : Pattern :=
  (choices.map RegularExpression.char).sum

/- A pattern or nothing. -/
def optional (pattern : Pattern) : Pattern :=
  pattern + 1

/- A pattern once or more often in a row. -/
def repeated (pattern : Pattern) : Pattern :=
  pattern * pattern.star

/- `[-+]?` -/
def sign : Pattern :=
  optional (oneOf "-+")

/- `[0-9]` -/
def digit : Pattern :=
  oneOf "0123456789"

/- `[0-9]*\.?[0-9]+` -/
def mantissa : Pattern :=
  digit.star * (optional (oneOf ".") * repeated digit)

/- `([eE][-+]?[0-9]+)?` -/
def exponent : Pattern :=
  optional (oneOf "eE" * (sign * repeated digit))

/- `[-+]?[0-9]*\.?[0-9]+([eE][-+]?[0-9]+)?` -/
def number : Pattern :=
  sign * (mantissa * exponent)

/- A text matches at the front of another, and no longer one does. -/
structure IsLongest
    (pattern : Pattern)
    (text written : Text) : Prop where
  stands : written <+: text
  fits : written ∈ pattern.matches'
  longest :
    ∀ other : Text,
      other <+: text → other ∈ pattern.matches' →
        other.length ≤ written.length

------------------------------------------------------------
-- What Matches
------------------------------------------------------------

theorem mem_oneOf_iff :
    text ∈ (oneOf choices).matches' ↔ ∃ c ∈ choices, text = [c] := by
  induction choices with
  | nil =>
      exact iff_of_false (Language.notMem_zero text) (by simp)
  | cons choice choices ih =>
      rw [oneOf, List.map_cons, List.sum_cons,
        RegularExpression.matches'_add, Language.mem_add, ← oneOf, ih,
        RegularExpression.matches'_char, List.exists_mem_cons_iff]
      rfl

theorem mem_optional_iff :
    text ∈ (optional pattern).matches' ↔
      text = [] ∨ text ∈ pattern.matches' := by
  rw [optional, RegularExpression.matches'_add, Language.mem_add,
    RegularExpression.matches'_epsilon, Language.mem_one, or_comm]

theorem mem_star_oneOf_iff :
    text ∈ (oneOf choices).star.matches' ↔
      ∀ c ∈ text, c ∈ choices := by
  rw [RegularExpression.matches'_star, Language.mem_kstar]
  constructor
  · rintro ⟨parts, rfl, hParts⟩ c hMem
    rcases List.mem_flatten.mp hMem with ⟨part, hPart, hIn⟩
    rcases mem_oneOf_iff.mp (hParts part hPart) with
      ⟨choice, hChoice, rfl⟩
    rwa [List.mem_singleton.mp hIn]
  · intro hAll
    refine
      ⟨text.map ([·]), (List.flatMap_singleton' text).symm, ?_⟩
    rintro part hPart
    rcases List.mem_map.mp hPart with ⟨c, hMem, rfl⟩
    exact mem_oneOf_iff.mpr ⟨c, hAll c hMem, rfl⟩

theorem mem_repeated_oneOf_iff :
    text ∈ (repeated (oneOf choices)).matches' ↔
      text ≠ [] ∧ ∀ c ∈ text, c ∈ choices := by
  rw [repeated, RegularExpression.matches'_mul, Language.mem_mul]
  constructor
  · rintro ⟨first, hFirst, more, hMore, rfl⟩
    rcases mem_oneOf_iff.mp hFirst with ⟨choice, hChoice, rfl⟩
    exact
      ⟨List.cons_ne_nil _ _, List.forall_mem_cons.mpr
        ⟨hChoice, mem_star_oneOf_iff.mp hMore⟩⟩
  · rintro ⟨hNotEmpty, hAll⟩
    cases text with
    | nil => exact absurd rfl hNotEmpty
    | cons c more =>
        rcases List.forall_mem_cons.mp hAll with ⟨hFirst, hMore⟩
        exact
          ⟨[c], mem_oneOf_iff.mpr ⟨c, hFirst, rfl⟩, more,
            mem_star_oneOf_iff.mpr hMore, rfl⟩

------------------------------------------------------------
-- Parts Of Numbers
------------------------------------------------------------

/- The choices of a digit are the code points that are one. -/
theorem mem_digits_iff (c : CodePoint) :
    c ∈ ("0123456789" : Text) ↔ c.isAsciiDigit = true := by
  constructor
  · revert c
    decide
  · intro hDigit
    cases c with
    | surrogate offset => cases hDigit
    | char c =>
        have hBounds : 48 ≤ c.toNat ∧ c.toNat < 58 := by
          simp only [CodePoint.isAsciiDigit, Char.isDigit,
            Bool.and_eq_true, decide_eq_true_eq] at hDigit
          exact ⟨hDigit.1, Nat.lt_succ_of_le hDigit.2⟩
        have hAll :
            ∀ n < 58, 48 ≤ n →
              CodePoint.char (Char.ofNat n) ∈ ("0123456789" : Text) := by
          decide
        have hMem := hAll c.toNat hBounds.2 hBounds.1
        rwa [Char.ofNat_toNat] at hMem

theorem mem_sign_iff :
    text ∈ sign.matches' ↔ text = [] ∨ text = "+" ∨ text = "-" := by
  rw [sign, mem_optional_iff, mem_oneOf_iff]
  refine or_congr_right ⟨?_, ?_⟩
  · rintro ⟨c, hMem, rfl⟩
    rcases List.mem_pair.mp hMem with rfl | rfl
    · exact .inr rfl
    · exact .inl rfl
  · rintro (rfl | rfl)
    · exact ⟨'+', by decide, rfl⟩
    · exact ⟨'-', by decide, rfl⟩

theorem mem_star_digit_iff :
    text ∈ digit.star.matches' ↔ text.AllDigits := by
  rw [digit, mem_star_oneOf_iff]
  exact forall₂_congr fun c _ => mem_digits_iff c

theorem mem_repeated_digit_iff :
    text ∈ (repeated digit).matches' ↔
      text ≠ [] ∧ text.AllDigits := by
  rw [digit, mem_repeated_oneOf_iff]
  exact and_congr_right fun _ =>
    forall₂_congr fun c _ => mem_digits_iff c

/-
  Digits around a point that may be missing are whole digits,
  a fraction, or both.
-/
theorem mem_mantissa_iff :
    text ∈ mantissa.matches' ↔
      ∃ whole fraction : Text,
        whole.AllDigits ∧
          (fraction = [] ∨ ∃ digits : Text,
            digits ≠ [] ∧ digits.AllDigits ∧
              fraction = .char '.' :: digits) ∧
          ¬ (whole = [] ∧ fraction = []) ∧
          whole ++ fraction = text := by
  simp only [mantissa, RegularExpression.matches'_mul,
    Language.mem_mul, mem_star_digit_iff, mem_optional_iff,
    mem_oneOf_iff, mem_repeated_digit_iff]
  constructor
  · rintro ⟨whole, hWhole, _, ⟨point, hPoint, digits,
      ⟨hNotEmpty, hDigits⟩, rfl⟩, rfl⟩
    rcases hPoint with rfl | ⟨c, hMem, rfl⟩
    · refine
        ⟨whole ++ digits, [], hWhole.append hDigits, .inl rfl, ?_,
          List.append_nil _⟩
      rintro ⟨hNone, -⟩
      exact hNotEmpty (List.append_eq_nil_iff.mp hNone).2
    · cases List.mem_singleton.mp hMem
      exact
        ⟨whole, .char '.' :: digits, hWhole,
          .inr ⟨digits, hNotEmpty, hDigits, rfl⟩,
          by simp, rfl⟩
  · rintro ⟨whole, fraction, hWhole, hFraction, hNotEmpty, rfl⟩
    rcases hFraction with rfl | ⟨digits, hSome, hDigits, rfl⟩
    · refine
        ⟨[], fun c hMem => absurd hMem List.not_mem_nil, _,
          ⟨[], .inl rfl, whole, ⟨?_, hWhole⟩, rfl⟩,
          (List.append_nil whole).symm⟩
      exact fun hNone => hNotEmpty ⟨hNone, rfl⟩
    · exact
        ⟨whole, hWhole, _,
          ⟨".", .inr ⟨'.', List.mem_singleton_self _, rfl⟩, digits,
            ⟨hSome, hDigits⟩, rfl⟩, rfl⟩

theorem mem_exponent_iff :
    text ∈ exponent.matches' ↔
      text = [] ∨ ∃ (mark : CodePoint) (expSign digits : Text),
        (mark = 'e' ∨ mark = 'E') ∧
          (expSign = [] ∨ expSign = "+" ∨ expSign = "-") ∧
          digits ≠ [] ∧ digits.AllDigits ∧
          text = mark :: expSign ++ digits := by
  simp only [exponent, mem_optional_iff,
    RegularExpression.matches'_mul, Language.mem_mul, mem_oneOf_iff,
    mem_sign_iff, mem_repeated_digit_iff]
  refine or_congr_right ⟨?_, ?_⟩
  · rintro ⟨_, ⟨mark, hMark, rfl⟩, _, ⟨expSign, hSign, digits,
      ⟨hNotEmpty, hDigits⟩, rfl⟩, rfl⟩
    exact
      ⟨mark, expSign, digits, List.mem_pair.mp hMark, hSign,
        hNotEmpty, hDigits, rfl⟩
  · rintro ⟨mark, expSign, digits, hMark, hSign, hNotEmpty, hDigits,
      rfl⟩
    exact
      ⟨[mark], ⟨mark, List.mem_pair.mpr hMark, rfl⟩, _,
        ⟨expSign, hSign, digits, ⟨hNotEmpty, hDigits⟩, rfl⟩, rfl⟩

------------------------------------------------------------
-- Numbers
------------------------------------------------------------

/- The texts that match are those of the parts of a number. -/
theorem mem_number_iff :
    text ∈ number.matches' ↔
      ∃ numeral : Numeral, numeral.text = text := by
  simp only [number, RegularExpression.matches'_mul,
    Language.mem_mul, mem_sign_iff, mem_mantissa_iff,
    mem_exponent_iff]
  constructor
  · rintro ⟨sign, hSign, _, ⟨_, ⟨whole, fraction, hWhole, hFraction,
      hNotEmpty, rfl⟩, exponent, hExponent, rfl⟩, rfl⟩
    refine
      ⟨⟨sign, whole, fraction, exponent, hSign, hWhole, hFraction,
        hExponent, hNotEmpty⟩, ?_⟩
    simp only [Numeral.text, List.append_assoc]
  · rintro ⟨numeral, rfl⟩
    refine
      ⟨numeral.sign, numeral.sign_form, _,
        ⟨_, ⟨numeral.whole, numeral.fraction, numeral.whole_form,
          numeral.fraction_form, numeral.not_empty, rfl⟩,
          numeral.exponent, numeral.exponent_form, rfl⟩, ?_⟩
    simp only [Numeral.text, List.append_assoc]

/- No number is taken only where no text that matches stands. -/
theorem numberPart?_eq_none_iff :
    Lexeme.numberPart? text = none ↔
      ∀ written : Text,
        written <+: text → written ∉ number.matches' := by
  rw [Lexeme.numberPart?_eq_none_iff]
  constructor
  · rintro hNowhere written hStands hFits
    rcases mem_number_iff.mp hFits with ⟨numeral, rfl⟩
    exact hNowhere numeral hStands
  · intro hNowhere numeral hStands
    exact
      hNowhere numeral.text hStands
        (mem_number_iff.mpr ⟨numeral, rfl⟩)

/- The longest text that matches is the longest number. -/
theorem isLongest_number_iff
    {numeral : Numeral} :
    number.IsLongest text numeral.text ↔ numeral.IsLongest text := by
  constructor
  · rintro ⟨hStands, -, hLongest⟩
    refine ⟨hStands, fun other hOther => ?_⟩
    exact
      hLongest other.text hOther (mem_number_iff.mpr ⟨other, rfl⟩)
  · rintro ⟨hStands, hLongest⟩
    refine
      ⟨hStands, mem_number_iff.mpr ⟨numeral, rfl⟩,
        fun other hOther hFits => ?_⟩
    rcases mem_number_iff.mp hFits with ⟨found, rfl⟩
    exact hLongest found hOther

end Pattern

end ExperimentScript
