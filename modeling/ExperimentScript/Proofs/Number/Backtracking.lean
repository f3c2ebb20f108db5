import ExperimentScript.Proofs.Number.Pattern

/-
  What matching by trial and error finds of a number.

  A pattern is matched by trying its choices in order, going
  on with what follows it, and coming back to the next choice
  where that fails. A repetition is tried once more before it
  ends. The match found first need not be the longest one in
  general, but for the pattern of numbers it is: digits that
  were taken before a point are given back only where none
  follow it.

  Key definitions include:
    * `ExperimentScript.Pattern.attempt`
    * `ExperimentScript.Pattern.firstMatch?`

  Main declarations:
    * `ExperimentScript.Pattern.attempt_mantissa`
    * `ExperimentScript.Pattern.attempt_number`
    * `ExperimentScript.Pattern.firstMatch?_number`
    * `ExperimentScript.Pattern.firstMatch?_number_iff`
-/

namespace ExperimentScript

namespace Pattern

open Lexeme

------------------------------------------------------------
-- Trial And Error
------------------------------------------------------------

/-
  Tries a match once more, as long as it takes something, and
  goes on with what follows where that fails. The fuel bounds
  how often.
-/
def attemptAgain
    (attempt : Text → (Text → Option Text) → Option Text)
    (next : Text → Option Text) :
    Nat → Text → Option Text
  | 0, text => next text
  | fuel + 1, text =>
    (attempt text fun rest =>
      if rest.length < text.length then
        attemptAgain attempt next fuel rest
      else none) <|> next text

/-
  Matches a pattern at the front of a text so that what follows
  succeeds on what is left. The first way to do so is taken.
-/
def attempt :
    Pattern → Text → (Text → Option Text) → Option Text
  | .zero, _, _ => none
  | .epsilon, text, next => next text
  | .char _, [], _ => none
  | .char c, first :: rest, next =>
    if first = c then next rest else none
  | .plus first second, text, next =>
    attempt first text next <|> attempt second text next
  | .comp first second, text, next =>
    attempt first text fun rest => attempt second rest next
  | .star pattern, text, next =>
    attemptAgain (attempt pattern) next text.length text

/- The first match at the front of a text. -/
def firstMatch?
    (pattern : Pattern)
    (text : Text) :
    Option Text :=
  (attempt pattern text some).map fun rest =>
    text.take (text.length - rest.length)

------------------------------------------------------------
-- Parts Of Patterns
------------------------------------------------------------

section Parts

variable {pattern other : Pattern}
variable {choices text rest : Text}
variable {c : CodePoint}
variable {next : Text → Option Text}

theorem attempt_mul :
    attempt (pattern * other) text next =
      attempt pattern text fun rest => attempt other rest next := rfl

/- What is optional is tried before it is left out. -/
theorem attempt_optional :
    attempt (optional pattern) text next =
      (attempt pattern text next <|> next text) := rfl

theorem attempt_oneOf_nil :
    attempt (oneOf choices) [] next = none := by
  induction choices with
  | nil => rfl
  | cons choice choices ih => exact ih

theorem attempt_oneOf_cons :
    attempt (oneOf choices) (c :: rest) next =
      if c ∈ choices then next rest else none := by
  induction choices with
  | nil => rfl
  | cons choice choices ih =>
      change
        ((if c = choice then next rest else none) <|>
          attempt (oneOf choices) (c :: rest) next) = _
      rw [ih]
      by_cases hHere : c = choice
      · cases next rest <;> simp [hHere]
      · simp [hHere]

end Parts

------------------------------------------------------------
-- Digits
------------------------------------------------------------

section Digits

variable {text rest : Text}
variable {c : CodePoint}
variable {next : Text → Option Text}

theorem attempt_digit_nil :
    attempt digit [] next = none :=
  attempt_oneOf_nil

theorem attempt_digit_cons :
    attempt digit (c :: rest) next =
      if c.isAsciiDigit then next rest else none := by
  rw [digit, attempt_oneOf_cons]
  exact if_congr (mem_digits_iff c) rfl rfl

/- One digit more is tried before what follows digits. -/
theorem attemptAgain_digit
    (hDigit : c.isAsciiDigit = true)
    (fuel : Nat) :
    attemptAgain (attempt digit) next (fuel + 1) (c :: rest) =
      (attemptAgain (attempt digit) next fuel rest <|>
        next (c :: rest)) := by
  have hShorter : rest.length < (c :: rest).length :=
    Nat.lt_succ_self _
  rw [attemptAgain, attempt_digit_cons, if_pos hDigit,
    if_pos hShorter]

/- Where no digit stands what follows digits is tried. -/
theorem attemptAgain_not_digit
    (hDigit : ∀ first ∈ text.head?, first.isAsciiDigit = false)
    (fuel : Nat) :
    attemptAgain (attempt digit) next fuel text = next text := by
  cases fuel with
  | zero => rfl
  | succ fuel =>
      rw [attemptAgain]
      cases text with
      | nil =>
          rw [attempt_digit_nil]
          rfl
      | cons c rest =>
          have hHere := hDigit c rfl
          rw [attempt_digit_cons, hHere]
          rfl

variable (found : Text → Text)

/-
  All digits are taken if what follows them cannot fail, by
  induction on the text.
-/
theorem attemptAgain_digits
    {fuel : Nat}
    (hFuel : text.length ≤ fuel) :
    attemptAgain (attempt digit) (fun rest => some (found rest))
        fuel text =
      some
        (found
          (text.drop
            (text.takeWhile CodePoint.isAsciiDigit).length)) := by
  induction text generalizing fuel with
  | nil => exact attemptAgain_not_digit (by simp) fuel
  | cons c rest ih =>
      cases hDigit : c.isAsciiDigit with
      | true =>
          obtain ⟨fuel, rfl⟩ : ∃ less, fuel = less + 1 :=
            Nat.exists_eq_succ_of_ne_zero (Nat.ne_zero_of_lt hFuel)
          rw [attemptAgain_digit hDigit,
            ih (Nat.le_of_succ_le_succ hFuel),
            List.takeWhile_cons_of_pos hDigit]
          rfl
      | false =>
          rw [List.takeWhile_cons_of_neg (by simp [hDigit])]
          refine attemptAgain_not_digit ?_ fuel
          rintro first ⟨⟩
          exact hDigit

/- Digits are taken if there are any. -/
theorem attempt_repeated_digit (text : Text) :
    attempt (repeated digit) text (fun rest => some (found rest)) =
      if text.takeWhile CodePoint.isAsciiDigit = [] then none
      else
        some
          (found
            (text.drop
              (text.takeWhile CodePoint.isAsciiDigit).length)) := by
  rw [repeated, attempt_mul]
  cases text with
  | nil => exact attempt_digit_nil
  | cons c rest =>
      rw [attempt_digit_cons]
      cases hDigit : c.isAsciiDigit with
      | true =>
          rw [if_pos rfl, List.takeWhile_cons_of_pos hDigit,
            if_neg (List.cons_ne_nil _ _)]
          exact attemptAgain_digits found (Nat.le_refl _)
      | false =>
          rw [List.takeWhile_cons_of_neg (by simp [hDigit])]
          rfl

end Digits

------------------------------------------------------------
-- Digits And A Point
------------------------------------------------------------

section Mantissas

variable {text : Text}
variable (found : Text → Text)

/- A point is taken only with digits after it. -/
theorem attempt_fraction (text : Text) :
    attempt (optional (oneOf ".") * repeated digit) text
        (fun rest => some (found rest)) =
      if fractionPart text = [] then
        attempt (repeated digit) text fun rest => some (found rest)
      else some (found (text.drop (fractionPart text).length)) := by
  rw [attempt_mul, attempt_optional]
  cases text with
  | nil =>
      rw [attempt_oneOf_nil]
      rfl
  | cons c rest =>
      have hHere : c ∈ ("." : Text) ↔ c = '.' := List.mem_singleton
      rw [attempt_oneOf_cons, if_congr hHere rfl rfl,
        fractionPart_cons, attempt_repeated_digit found rest]
      by_cases hPoint : c = '.'
      · by_cases hDigits :
            rest.takeWhile CodePoint.isAsciiDigit = []
        · simp [hPoint, hDigits]
        · simp [hPoint, hDigits]
      · simp [hPoint]

/-
  The digits before a point are taken, and those after it if
  there are any. Where none come after it and some before, the
  last one of these is given back, to stand after no point.
-/
theorem attemptAgain_fraction
    {fuel : Nat}
    (hFuel : text.length ≤ fuel) :
    let whole := text.takeWhile CodePoint.isAsciiDigit
    let rest := text.drop whole.length
    attemptAgain (attempt digit)
        (fun rest =>
          attempt (optional (oneOf ".") * repeated digit) rest
            fun rest => some (found rest))
        fuel text =
      if whole = [] ∧ fractionPart rest = [] then none
      else some (found (rest.drop (fractionPart rest).length)) := by
  dsimp only
  induction text generalizing fuel with
  | nil =>
      rw [attemptAgain_not_digit (by simp)]
      rfl
  | cons c rest ih =>
      cases hDigit : c.isAsciiDigit with
      | true =>
          obtain ⟨fuel, rfl⟩ : ∃ less, fuel = less + 1 :=
            Nat.exists_eq_succ_of_ne_zero (Nat.ne_zero_of_lt hFuel)
          have hPoint : fractionPart (c :: rest) = [] := by
            rw [fractionPart_cons]
            refine if_neg ?_
            rintro ⟨rfl, -⟩
            cases hDigit
          rw [attemptAgain_digit hDigit,
            ih (Nat.le_of_succ_le_succ hFuel), attempt_fraction,
            if_pos hPoint, attempt_repeated_digit,
            List.takeWhile_cons_of_pos hDigit]
          simp only [List.length_cons, List.drop_succ_cons,
            List.cons_ne_nil, if_false, false_and]
          split
          · rename_i hNone
            rw [hNone.2]
            rfl
          · rfl
      | false =>
          have hHere :
              ∀ first ∈ (c :: rest).head?,
                first.isAsciiDigit = false := by
            rintro first ⟨⟩
            exact hDigit
          rw [attemptAgain_not_digit hHere, attempt_fraction,
            attempt_repeated_digit,
            List.takeWhile_cons_of_neg (by simp [hDigit])]
          by_cases hPoint : fractionPart (c :: rest) = []
          · simp [hPoint]
          · simp [hPoint]

theorem attempt_mantissa (text : Text) :
    let whole := text.takeWhile CodePoint.isAsciiDigit
    let rest := text.drop whole.length
    attempt mantissa text (fun rest => some (found rest)) =
      if whole = [] ∧ fractionPart rest = [] then none
      else some (found (rest.drop (fractionPart rest).length)) :=
  attemptAgain_fraction found (Nat.le_refl _)

end Mantissas

------------------------------------------------------------
-- Numbers
------------------------------------------------------------

/- A sign is taken if what follows it cannot begin with one. -/
theorem attempt_sign
    {next : Text → Option Text}
    (hNext : ∀ text, signPart text ≠ [] → next text = none)
    (text : Text) :
    attempt sign text next =
      next (text.drop (signPart text).length) := by
  rw [sign, attempt_optional]
  cases text with
  | nil =>
      rw [attempt_oneOf_nil]
      rfl
  | cons c rest =>
      have hSign : c ∈ ("-+" : Text) ↔ c = '+' ∨ c = '-' := by
        rw [or_comm]
        exact List.mem_pair
      have hPart := hNext (c :: rest)
      rw [signPart_cons] at hPart ⊢
      rw [attempt_oneOf_cons, if_congr hSign rfl rfl]
      by_cases hHere : c = '+' ∨ c = '-'
      · rw [if_pos hHere] at hPart
        rw [if_pos hHere, if_pos hHere, hPart (List.cons_ne_nil _ _)]
        change (next rest <|> none) = next rest
        cases next rest <;> rfl
      · rw [if_neg hHere, if_neg hHere]
        rfl

/- No digit stands where a sign does. -/
theorem takeWhile_of_signPart
    {text : Text}
    (hSign : signPart text ≠ []) :
    text.takeWhile CodePoint.isAsciiDigit = [] ∧
      fractionPart text = [] := by
  cases text with
  | nil => exact absurd rfl hSign
  | cons c rest =>
      rw [signPart_cons] at hSign
      have hHere : c = '+' ∨ c = '-' := by
        by_contra hOther
        exact hSign (if_neg hOther)
      rcases hHere with rfl | rfl
      · exact ⟨rfl, rfl⟩
      · exact ⟨rfl, rfl⟩

/- The mark of an exponent is taken only with digits. -/
theorem attempt_exponent (text : Text) :
    attempt exponent text some =
      some (text.drop (exponentPart text).length) := by
  have hDigits (text : Text) :
      attempt (repeated digit) text some =
        if text.takeWhile CodePoint.isAsciiDigit = [] then none
        else
          some
            (text.drop
              (text.takeWhile CodePoint.isAsciiDigit).length) :=
    attempt_repeated_digit id text
  rw [exponent, attempt_optional, attempt_mul]
  cases text with
  | nil =>
      rw [attempt_oneOf_nil]
      rfl
  | cons c rest =>
      have hMark : c ∈ ("eE" : Text) ↔ c = 'e' ∨ c = 'E' :=
        List.mem_pair
      have hSign :
          ∀ text, signPart text ≠ [] →
            attempt (repeated digit) text some = none := by
        intro text hSign
        rw [hDigits, if_pos (takeWhile_of_signPart hSign).1]
      rw [attempt_oneOf_cons, if_congr hMark rfl rfl, attempt_mul,
        attempt_sign hSign, hDigits, exponentPart_cons]
      by_cases hHere : c = 'e' ∨ c = 'E'
      · by_cases hNone :
            (rest.drop (signPart rest).length).takeWhile
              CodePoint.isAsciiDigit = []
        · simp [hHere, hNone]
        · simp [hHere, hNone]
      · simp [hHere]

/- The number that is found first is the one that is taken. -/
theorem attempt_number (text : Text) :
    attempt number text some =
      (numberPart? text).map fun written =>
        text.drop written.length := by
  have hExponent :
      (fun rest => attempt exponent rest some) =
        fun rest => some (rest.drop (exponentPart rest).length) :=
    funext attempt_exponent
  have hSign :
      ∀ text, signPart text ≠ [] →
        attempt (mantissa * exponent) text some = none := by
    intro text hSign
    rcases takeWhile_of_signPart hSign with ⟨hWhole, hFraction⟩
    rw [attempt_mul, hExponent, attempt_mantissa, hWhole]
    exact if_pos ⟨rfl, hFraction⟩
  rw [number, attempt_mul, attempt_sign hSign, attempt_mul, hExponent,
    attempt_mantissa, numberPart?]
  split
  · rename_i hNone
    rw [if_pos (by simpa using hNone)]
    rfl
  · rename_i hSome
    rw [if_neg (by simpa using hSome)]
    simp only [Option.map_some, List.length_append, List.drop_drop,
      Nat.add_assoc]

/- What is found first is the number that is taken. -/
theorem firstMatch?_number (text : Text) :
    firstMatch? number text = numberPart? text := by
  rw [firstMatch?, attempt_number, Option.map_map]
  cases hWritten : numberPart? text with
  | none => rfl
  | some written =>
      rcases numberPart?_eq_some_iff.mp hWritten with
        ⟨numeral, rfl, hLongest⟩
      have hLength := hLongest.stands.length_le
      have hTake := List.prefix_iff_eq_take.mp hLongest.stands
      simp only [Option.map_some, Function.comp, List.length_drop,
        Nat.sub_sub_self hLength, ← hTake]

/- What is found first is the longest text that matches. -/
theorem firstMatch?_number_iff
    {text written : Text} :
    firstMatch? number text = some written ↔
      number.IsLongest text written := by
  rw [firstMatch?_number, numberPart?_eq_some_iff]
  constructor
  · rintro ⟨numeral, rfl, hLongest⟩
    exact isLongest_number_iff.mpr hLongest
  · intro hLongest
    rcases mem_number_iff.mp hLongest.fits with ⟨numeral, rfl⟩
    exact ⟨numeral, rfl, isLongest_number_iff.mp hLongest⟩

end Pattern

end ExperimentScript
