import Mathlib.Algebra.Group.Int.Defs
import Mathlib.Algebra.Group.Nat.Defs
import ExperimentScript.Json.Quoted
import ExperimentScript.Json.Reader

/-
  Texts in quotes and back.

  A text that is written as a JSON string is read as the text
  it was, both as a string of a script and as a JSON text. A
  code point is written in one of three ways, and each reader
  takes what was written of one code point in one step.

  Key definitions include:
    * `ExperimentScript.Json.IsWritten`
    * `ExperimentScript.Json.body`

  Main declarations:
    * `ExperimentScript.Lexeme.doubleQuoted?_body`
    * `ExperimentScript.Lexeme.singleQuoted_of_not_mem`
    * `ExperimentScript.Json.decode_quote`
-/

namespace ExperimentScript

------------------------------------------------------------
-- Code Points In Quotes
------------------------------------------------------------

namespace Json

/-
  What a code point may be written as in quotes: an escape of
  one letter, itself, or an escape of four digits if it is a
  control character.
-/
inductive IsWritten (c : CodePoint) : Text → Prop where
  | short
      (letter : CodePoint)
      (hLetter : Lexeme.escape? letter = some c) :
      IsWritten c [.char '\\', letter]
  | plain
      (hQuote : c ≠ '"')
      (hEscape : c ≠ '\\')
      (hPrintable : 0x20 ≤ c.toNat) :
      IsWritten c [c]
  | long
      (h₁ h₂ h₃ h₄ : CodePoint)
      (hDigits : Lexeme.hexEscape? h₁ h₂ h₃ h₄ = some c)
      (hControl : c.toNat < 0x20) :
      IsWritten c
        [.char '\\', .char 'u', h₁, h₂, h₃, h₄]

/- A code point as it stands in a string in quotes. -/
def written (c : CodePoint) : Text :=
  escaped (fun c => 0x20 ≤ c.toNat) c

/- What stands between the quotes of a text. -/
def body (text : Text) : Text :=
  text.flatMap written

theorem quote_eq (text : Text) :
    quote text = .char '"' :: (body text ++ [.char '"']) := rfl

@[simp] theorem body_nil : body [] = [] := rfl

@[simp] theorem body_cons
    (c : CodePoint)
    (text : Text) :
    body (c :: text) = written c ++ body text := rfl

/- The letter of a short escape stands for what it was made of. -/
theorem escape?_of_shortEscape?
    {c : CodePoint}
    {letter : Char}
    (hShort : shortEscape? c = some letter) :
    Lexeme.escape? letter = some c := by
  unfold shortEscape? at hShort
  split at hShort
  all_goals cases hShort
  all_goals rfl

/- The quote and the backslash have short escapes. -/
theorem ne_of_shortEscape?_eq_none
    {c : CodePoint}
    (hShort : shortEscape? c = none) :
    c ≠ '"' ∧ c ≠ '\\' := by
  constructor
  · rintro rfl
    cases hShort
  · rintro rfl
    cases hShort

/- A hexadecimal digit is read as what it stands for. -/
theorem hexValue?_digitChar
    {n : Nat}
    (hDigit : n < 16) :
    CodePoint.hexValue? (.char n.digitChar) = some n := by
  have hAll :
      ∀ n : Fin 16,
        CodePoint.hexValue? (.char n.val.digitChar) = some n.val := by
    decide
  exact hAll ⟨n, hDigit⟩

/- The four digits of a unit of sixteen bits. -/
theorem hex_eq
    {n : Nat}
    (hUnit : n < 0x10000) :
    Text.hex 4 n =
      [.char (n / 0x1000).digitChar,
        .char (n / 0x100 % 16).digitChar,
        .char (n / 16 % 16).digitChar,
        .char (n % 16).digitChar] := by
  have hStep : ∀ m, 16 ≤ m →
      Nat.toDigits 16 m =
        Nat.toDigits 16 (m / 16) ++ [(m % 16).digitChar] :=
    fun m hLarge => Nat.toDigits_of_base_le (by decide) hLarge
  have hLast : ∀ m, m < 16 → Nat.toDigits 16 m = [m.digitChar] :=
    fun m hSmall => Nat.toDigits_of_lt_base hSmall
  have hHundreds : n / 16 / 16 = n / 0x100 := by omega
  have hThousands : n / 0x100 / 16 = n / 0x1000 := by omega
  -- One case for each number of digits that are no leading zeros.
  by_cases hOne : n < 16
  · have hZeros : n / 0x1000 = 0 ∧ n / 0x100 % 16 = 0 ∧
        n / 16 % 16 = 0 ∧ n % 16 = n := by
      omega
    simp [Text.hex, hLast n hOne, hZeros,
      List.replicate]
  by_cases hTwo : n < 0x100
  · have hZeros : n / 0x1000 = 0 ∧ n / 0x100 % 16 = 0 ∧
        n / 16 % 16 = n / 16 := by
      omega
    simp [Text.hex, hStep n (by omega), hLast (n / 16) (by omega),
      hZeros, List.replicate]
  by_cases hThree : n < 0x1000
  · have hZeros : n / 0x1000 = 0 ∧ n / 0x100 % 16 = n / 0x100 := by
      omega
    simp [Text.hex, hStep n (by omega), hStep (n / 16) (by omega),
      hHundreds, hLast (n / 0x100) (by omega), hZeros]
  · simp [Text.hex, hStep n (by omega), hStep (n / 16) (by omega),
      hHundreds, hStep (n / 0x100) (by omega), hThousands,
      hLast (n / 0x1000) (by omega)]

/- The digits of a unit of sixteen bits are read back as it. -/
theorem exists_hex_of_lt
    {n : Nat}
    (hUnit : n < 0x10000) :
    ∃ h₁ h₂ h₃ h₄,
      Text.hex 4 n = [h₁, h₂, h₃, h₄] ∧
        Lexeme.hexEscape? h₁ h₂ h₃ h₄ =
          some (CodePoint.ofNat n) := by
  refine ⟨_, _, _, _, hex_eq hUnit, ?_⟩
  have hSum :
      ((n / 0x1000 * 16 + n / 0x100 % 16) * 16 + n / 16 % 16) * 16 +
        n % 16 = n := by
    omega
  simp only [Lexeme.hexEscape?, hexValue?_digitChar
    (show n / 0x1000 < 16 by omega), hexValue?_digitChar
    (show n / 0x100 % 16 < 16 by omega), hexValue?_digitChar
    (show n / 16 % 16 < 16 by omega), hexValue?_digitChar
    (show n % 16 < 16 by omega), Option.bind_eq_bind,
    Option.bind_some, hSum]
  rfl

/- A code point is the one with its number. -/
theorem ofNat_toNat (c : CodePoint) :
    CodePoint.ofNat c.toNat = c := by
  cases c with
  | char c =>
      -- No character has the number of a surrogate.
      have hOutside :
          ¬ (c.toNat - 0xD800 < 2048 ∧ 0xD800 ≤ c.toNat) := by
        rcases c.valid with hBelow | hAbove
        · have hNumber : c.toNat < 0xD800 := hBelow
          omega
        · have hNumber : 0xDFFF < c.toNat := hAbove.1
          omega
      rw [CodePoint.toNat, CodePoint.ofNat, dif_neg hOutside,
        Char.ofNat_toNat]
  | surrogate offset => simp [CodePoint.ofNat, CodePoint.toNat]

/- Every code point is written in one of the three ways. -/
theorem isWritten_written (c : CodePoint) :
    IsWritten c (written c) := by
  unfold written escaped
  cases hShort : shortEscape? c with
  | some letter =>
      exact .short letter (escape?_of_shortEscape? hShort)
  | none =>
      rcases ne_of_shortEscape?_eq_none hShort with
        ⟨hQuote, hEscape⟩
      by_cases hPrintable : 0x20 ≤ c.toNat
      · simp only [hPrintable, decide_true, if_true]
        exact .plain hQuote hEscape hPrintable
      · have hControl : c.toNat < 0x20 := by omega
        have hUnit : c.toNat < 0x10000 := by omega
        rcases exists_hex_of_lt hUnit with
          ⟨h₁, h₂, h₃, h₄, hHex, hDigits⟩
        rw [ofNat_toNat] at hDigits
        simp only [hPrintable, decide_false, unitEscapes,
          hUnit, if_true, longEscape, hHex]
        exact .long h₁ h₂ h₃ h₄ hDigits hControl

end Json

------------------------------------------------------------
-- Strings Of A Script
------------------------------------------------------------

namespace Lexeme

open Json

/- What is written of a code point is read in one step. -/
theorem doubleQuoted?_of_isWritten
    {c : CodePoint}
    {front : Text}
    (hWritten : IsWritten c front)
    (rest : Text) :
    doubleQuoted? (front ++ rest) =
      (doubleQuoted? rest).map (withFront front [c]) := by
  cases hWritten with
  | short letter hLetter =>
      unfold escape? at hLetter
      split at hLetter
      all_goals cases hLetter
      all_goals
        rw [List.cons_append, List.cons_append, List.nil_append,
          doubleQuoted?.eq_def]
        rfl
  | plain hQuote hEscape hPrintable =>
      rw [List.cons_append, List.nil_append,
        doubleQuoted?.eq_def]
      split <;> simp_all
  | long h₁ h₂ h₃ h₄ hDigits hControl =>
      simp only [List.cons_append, List.nil_append]
      rw [doubleQuoted?.eq_def]
      simp only [hDigits]
      rfl

/- What stands between the quotes of a text is read as the text. -/
theorem doubleQuoted?_body
    (text rest : Text) :
    doubleQuoted? (body text ++ .char '"' :: rest) =
      some (body text ++ [.char '"'], text) := by
  induction text with
  | nil =>
      rw [body_nil, List.nil_append, doubleQuoted?.eq_def]
      rfl
  | cons c text ih =>
      rw [body_cons, List.append_assoc,
        doubleQuoted?_of_isWritten (isWritten_written c), ih]
      simp [withFront]

theorem cut?_of_not_mem
    {mark : CodePoint}
    {text : Text}
    (hMark : mark ∉ text)
    (rest : Text) :
    Text.cut? mark (text ++ mark :: rest) = some (text, rest) := by
  induction text with
  | nil => simp [Text.cut?]
  | cons c text ih =>
      have hOther : c ≠ mark := by
        rintro rfl
        exact hMark (List.mem_cons_self ..)
      have hText : mark ∉ text := fun hMem =>
        hMark (List.mem_cons_of_mem _ hMem)
      simp [Text.cut?, hOther, ih hText]

/- A text without single quotes can stand between them as it is. -/
theorem singleQuoted_of_not_mem
    {text : Text}
    (hQuote : CodePoint.char '\'' ∉ text)
    (rest : Text) :
    singleQuoted (text ++ .char '\'' :: rest) =
      .ok ⟨.char '\'' :: text ++ [.char '\''],
        some .string, some (.text text)⟩ := by
  rw [singleQuoted, cut?_of_not_mem hQuote]

end Lexeme

------------------------------------------------------------
-- Strings Of JSON
------------------------------------------------------------

namespace Json

/-
  An escape of four digits is read alone unless it forms a
  pair of surrogates with an escape just after it.
-/
theorem stringBody?_of_unit
    {h₁ h₂ h₃ h₄ c : CodePoint}
    {rest : Text}
    (hDigits : Lexeme.hexEscape? h₁ h₂ h₃ h₄ = some c)
    (hAlone :
      ∀ l₁ l₂ l₃ l₄ tail,
        rest =
            .char '\\' :: .char 'u' :: l₁ :: l₂ :: l₃ :: l₄ :: tail →
          (Lexeme.hexEscape? l₁ l₂ l₃ l₄).bind
              (joinSurrogates? c) = none) :
    stringBody?
        (.char '\\' :: .char 'u' :: h₁ :: h₂ :: h₃ :: h₄ :: rest) =
      (stringBody? rest).map (withFirst c) := by
  rw [stringBody?.eq_def]
  split
  case h_3 l₁ l₂ l₃ l₄ tail hFront =>
    cases hFront
    simp only [hDigits, hAlone l₁ l₂ l₃ l₄ tail rfl]
  case h_4 hFront =>
    cases hFront
    simp only [hDigits]
  case h_5 hNotLong hFront =>
    cases hFront
    exact absurd rfl (hNotLong h₁ h₂ h₃ h₄ rest rfl)
  case h_6 hNotEscape hFront =>
    cases hFront
    exact absurd rfl (hNotEscape _ _ rfl)
  all_goals
    rename_i hFront
    cases hFront

/- Only a high surrogate is the first of a pair. -/
theorem bind_joinSurrogates?_of_not_high
    {high : CodePoint}
    (hHigh : ¬ (0xD800 ≤ high.toNat ∧ high.toNat < 0xDC00))
    (low : Option CodePoint) :
    low.bind (joinSurrogates? high) = none := by
  cases low with
  | none => rfl
  | some low =>
      have hNone :
          ¬ (0xD800 ≤ high.toNat ∧ high.toNat < 0xDC00 ∧
            0xDC00 ≤ low.toNat ∧ low.toNat < 0xE000) :=
        fun hBoth => hHigh ⟨hBoth.1, hBoth.2.1⟩
      simp only [Option.bind_some, joinSurrogates?, if_neg hNone]

/- What is written of a code point is read in one step. -/
theorem stringBody?_of_isWritten
    {c : CodePoint}
    {front : Text}
    (hWritten : IsWritten c front)
    (rest : Text) :
    stringBody? (front ++ rest) =
      (stringBody? rest).map (withFirst c) := by
  cases hWritten with
  | short letter hLetter =>
      unfold Lexeme.escape? at hLetter
      split at hLetter
      all_goals cases hLetter
      all_goals
        rw [List.cons_append, List.cons_append, List.nil_append,
          stringBody?.eq_def]
        rfl
  | plain hQuote hEscape hPrintable =>
      have hNeither : ¬ (c = '\\' ∨ c.toNat < 0x20) := by
        rintro (hBackslash | hControl)
        · exact hEscape hBackslash
        · omega
      rw [List.cons_append, List.nil_append,
        stringBody?.eq_def]
      split
      case h_6 hFront =>
        cases hFront
        exact if_neg hNeither
      all_goals simp_all
  | long h₁ h₂ h₃ h₄ hDigits hControl =>
      refine stringBody?_of_unit hDigits fun _ _ _ _ _ _ => ?_
      exact bind_joinSurrogates?_of_not_high (by omega) _

theorem stringBody?_body
    (text rest : Text) :
    stringBody? (body text ++ .char '"' :: rest) =
      some (text, rest) := by
  induction text with
  | nil =>
      rw [body_nil, List.nil_append, stringBody?.eq_def]
      rfl
  | cons c text ih =>
      rw [body_cons, List.append_assoc,
        stringBody?_of_isWritten (isWritten_written c), ih]
      rfl

/- A string is read up to its closing quote. -/
theorem string_of_stringBody?
    {tail text rest : Text}
    (hBody : stringBody? tail = some (text, rest)) :
    string (.char '"' :: tail) = .ok (text, rest) := by
  have hQuote :
      exactly "\"" (.char '"' :: tail) = .ok ((), tail) := rfl
  unfold string
  simp only [bind, StateT.bind, hQuote, Except.bind, get, getThe,
    MonadStateOf.get, StateT.get, pure, Except.pure, hBody]
  rfl

theorem string_quote
    (text rest : Text) :
    string (quote text ++ rest) = .ok (text, rest) := by
  rw [quote_eq, List.cons_append, List.append_assoc]
  exact string_of_stringBody? (stringBody?_body text rest)

/- A text in quotes is the JSON of the text. -/
theorem decode_quote
    (depth : Nat)
    (text : Text) :
    decode (depth + 1) (quote text) = .ok (.text text) := by
  have hString := string_quote text []
  rw [List.append_nil] at hString
  have hValue :
      value (depth + 1) (quote text) = .ok (.text text, []) := by
    have hFirst :
        value (depth + 1) (quote text) =
          (do return .text (← string) : Reader Value)
            (quote text) := rfl
    rw [hFirst]
    simp only [bind, StateT.bind, hString]
    rfl
  have hDecode :
      decode (depth + 1) (quote text) =
        (do
          let result ← value (depth + 1)
          skipBlanks
          unless (← get).isEmpty do
            throw .notJson
          return result : Reader Value).run' (quote text) := rfl
  rw [hDecode]
  simp only [StateT.run', bind, StateT.bind, hValue]
  rfl

end Json

end ExperimentScript
