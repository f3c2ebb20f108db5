import ExperimentScript.Format.Script
import ExperimentScript.Proofs.Format.Constant
import ExperimentScript.Text.Lines

/-
  Texts that a file gives back as they were written.

  Reading a file turns carriage returns into line feeds. The
  notation of a constant has neither, and no other character
  below the blank, since all of them are escaped.

  Key definitions include:
    * `ExperimentScript.Text.IsPlain`

  Main declarations:
    * `ExperimentScript.Text.unifyLineEnds_of_isPlain`
    * `ExperimentScript.Format.isPlain_constant`
    * `ExperimentScript.Format.isPlain_embedded`
-/

namespace ExperimentScript

------------------------------------------------------------
-- Plain Texts
------------------------------------------------------------

namespace Text

/- A text without control characters other than the line feed. -/
def IsPlain (text : Text) : Prop :=
  ∀ c ∈ text, c = '\n' ∨ 0x20 ≤ c.toNat

instance (text : Text) : Decidable text.IsPlain :=
  inferInstanceAs
    (Decidable (∀ c ∈ text, c = CodePoint.char '\n' ∨ 0x20 ≤ c.toNat))

namespace IsPlain

theorem nil : IsPlain [] :=
  fun _ hMem => absurd hMem List.not_mem_nil

theorem append
    {front back : Text}
    (hFront : front.IsPlain)
    (hBack : back.IsPlain) :
    IsPlain (front ++ back) :=
  List.forall_mem_append.mpr ⟨hFront, hBack⟩

theorem cons
    {c : CodePoint}
    {text : Text}
    (hFirst : 0x20 ≤ c.toNat)
    (hText : text.IsPlain) :
    IsPlain (c :: text) :=
  List.forall_mem_cons.mpr ⟨.inr hFirst, hText⟩

theorem join
    {separator : Text}
    (hSeparator : separator.IsPlain)
    {parts : List Text}
    (hParts : ∀ part ∈ parts, IsPlain part) :
    IsPlain (Text.join separator parts) := by
  induction parts with
  | nil => exact nil
  | cons part parts ih =>
      rw [List.forall_mem_cons] at hParts
      cases parts with
      | nil =>
          rw [join_singleton]
          exact hParts.1
      | cons next more =>
          rw [join_cons_cons]
          exact hParts.1.append (hSeparator.append (ih hParts.2))

end IsPlain

/- A text without carriage returns is read from a file as it is. -/
theorem unifyLineEnds_of_isPlain
    {text : Text}
    (hText : text.IsPlain) :
    text.unifyLineEnds = text := by
  induction text with
  | nil => rfl
  | cons c text ih =>
      rw [IsPlain, List.forall_mem_cons] at hText
      have hReturn : c ≠ '\r' := by
        rintro rfl
        rcases hText.1 with hNewline | hPrintable
        · cases hNewline
        · exact absurd hPrintable (by decide)
      rw [unifyLineEnds]
      · rw [ih hText.2]
      · intro rest hFirst
        exact absurd hFirst hReturn
      · exact hReturn

end Text

------------------------------------------------------------
-- Constants
------------------------------------------------------------

namespace Format

open Text (IsPlain)

theorem isPlain_numeral (numeral : Numeral) :
    numeral.text.IsPlain := by
  refine numeral.forall_mem_text (fun c hDigit => ?_) (by decide)
  have hRange := CodePoint.toNat_of_isAsciiDigit hDigit
  exact .inr (by omega)

/- A name is made of letters, digits and low lines. -/
theorem isPlain_of_isName
    {name : Text}
    (hName : isName name = true) :
    name.IsPlain := by
  have hContinues {c : CodePoint} (hOn : c.continuesName = true) :
      0x20 ≤ c.toNat := by
    simp only [CodePoint.continuesName, Bool.or_eq_true,
      beq_iff_eq] at hOn
    rcases hOn with (hLetter | hDigit) | rfl
    · have hRange := CodePoint.toNat_of_isAsciiLetter hLetter
      omega
    · have hRange := CodePoint.toNat_of_isAsciiDigit hDigit
      omega
    · decide
  cases name with
  | nil => exact .nil
  | cons c rest =>
      simp only [isName, Bool.and_eq_true, List.all_eq_true] at hName
      have hRange := CodePoint.toNat_of_isAsciiLetter hName.1.1
      exact .cons (by omega) fun d hMem =>
        .inr (hContinues (hName.1.2 d hMem))

/- A hexadecimal digit is no control character. -/
theorem le_toNat_of_hexValue?
    {c : CodePoint}
    {value : Nat}
    (hValue : c.hexValue? = some value) :
    0x20 ≤ c.toNat := by
  cases c with
  | surrogate offset => cases hValue
  | char c =>
      have hFrom {first : Char} (hFirst : first ≤ c) :
          first.toNat ≤ c.toNat := hFirst
      rw [CodePoint.hexValue?] at hValue
      split at hValue
      · rename_i hRange
        exact Nat.le_trans (by decide) (hFrom hRange.1)
      · split at hValue
        · rename_i hRange
          exact Nat.le_trans (by decide) (hFrom hRange.1)
        · split at hValue
          · rename_i hRange
            exact Nat.le_trans (by decide) (hFrom hRange.1)
          · cases hValue

/- What is written of a code point in quotes is plain. -/
theorem isPlain_of_isWritten
    {c : CodePoint}
    {front : Text}
    (hWritten : Json.IsWritten c front) :
    front.IsPlain := by
  cases hWritten with
  | short letter hLetter =>
      unfold Lexeme.escape? at hLetter
      split at hLetter
      all_goals first
        | decide
        | cases hLetter
  | plain hQuote hEscape hPrintable =>
      exact .cons hPrintable .nil
  | long h₁ h₂ h₃ h₄ hDigits hControl =>
      simp only [Lexeme.hexEscape?, Option.bind_eq_bind,
        Option.bind_eq_some_iff] at hDigits
      rcases hDigits with
        ⟨_, hOne, _, hTwo, _, hThree, _, hFour, _⟩
      exact .cons (by decide) (.cons (by decide)
        (.cons (le_toNat_of_hexValue? hOne)
          (.cons (le_toNat_of_hexValue? hTwo)
            (.cons (le_toNat_of_hexValue? hThree)
              (.cons (le_toNat_of_hexValue? hFour) .nil)))))

theorem isPlain_quote (text : Text) :
    (Json.quote text).IsPlain := by
  have hBody : (Json.body text).IsPlain := by
    induction text with
    | nil => exact .nil
    | cons c text ih =>
        rw [Json.body_cons]
        exact (isPlain_of_isWritten (Json.isWritten_written c)).append ih
  rw [Json.quote_eq]
  exact .cons (by decide) (hBody.append (by decide))

/- The notation of a constant within bounds is plain. -/
theorem isPlain_constant
    {value : Value}
    {text : Text}
    (hBounded : value.isBounded = true)
    (hText : constant value = .ok text) :
    text.IsPlain := by
  cases value with
  | null =>
      cases hText
      decide
  | bool truth =>
      cases truth
      · cases hText
        decide
      · cases hText
        decide
  | int n =>
      cases hText
      rw [Value.isBounded, decide_eq_true_eq] at hBounded
      rcases Text.exists_numeral_ofInt hBounded with
        ⟨numeral, hNumeral, _, _⟩
      rw [← hNumeral]
      exact isPlain_numeral numeral
  | float x =>
      rw [Value.isBounded] at hBounded
      rcases Binary64.exists_numeral_toText hBounded with
        ⟨numeral, hNumeral, _, _⟩
      rw [constant, if_pos hBounded] at hText
      cases hText
      rw [← hNumeral]
      exact isPlain_numeral numeral
  | text content =>
      cases hText
      exact isPlain_quote content
  | list items => cases hText
  | map fields => cases hText

theorem isPlain_embeddedText
    (strict : Bool)
    (text : Text) :
    (embeddedText strict text).IsPlain := by
  unfold embeddedText
  dsimp only
  split
  · rename_i hName
    exact isPlain_of_isName hName
  · split
    · exact isPlain_quote text
    · split
      · exact isPlain_quote _
      · exact .append (.append (by decide) (isPlain_quote text))
          (by decide)

mutual

/- The notation of a constant after an `@` is plain. -/
theorem isPlain_embedded (strict : Bool) :
    ∀ (value : Value) {levels : Nat} {text : Text},
      value.isBounded = true →
      embedded strict levels value = .ok text →
      text.IsPlain
  | .null => fun hBounded hText => by
    rw [embedded] at hText
    exact isPlain_constant hBounded hText
  | .bool _ => fun hBounded hText => by
    rw [embedded] at hText
    exact isPlain_constant hBounded hText
  | .int n => fun hBounded hText => by
    rw [embedded] at hText
    exact isPlain_constant hBounded hText
  | .float _ => fun hBounded hText => by
    rw [embedded] at hText
    exact isPlain_constant hBounded hText
  | .text content => fun _ hText => by
    rw [embedded] at hText
    cases hText
    exact isPlain_embeddedText strict content
  | .list items => fun hBounded hText => by
    rcases exists_of_embedded_list hText with
      ⟨below, texts, rfl, hTexts, rfl⟩
    rw [Value.isBounded] at hBounded
    have hItems :=
      isPlain_embeddedItems strict items hBounded hTexts
    exact .append (.append (by decide) (.join (by decide) hItems))
      (by decide)
  | .map fields => fun hBounded hText => by
    rcases exists_of_embedded_map hText with
      ⟨below, texts, rfl, hTexts, rfl⟩
    rw [Value.isBounded, Bool.and_eq_true] at hBounded
    have hFields :=
      isPlain_embeddedFields strict fields hBounded.2 hTexts
    exact .append (.append (by decide) (.join (by decide) hFields))
      (by decide)

theorem isPlain_embeddedItems (strict : Bool) :
    ∀ (items : List Value) {levels : Nat} {texts : List Text},
      Value.areBounded items = true →
      embeddedItems strict levels items = .ok texts →
      ∀ text ∈ texts, IsPlain text
  | [] => fun _ hTexts => by
    cases hTexts
    exact fun _ hMem => absurd hMem List.not_mem_nil
  | item :: items => fun hBounded hTexts => by
    rcases exists_of_embeddedItems_cons hTexts with
      ⟨first, rest, hFirst, hRest, rfl⟩
    rw [Value.areBounded, Bool.and_eq_true] at hBounded
    exact List.forall_mem_cons.mpr
      ⟨isPlain_embedded strict item hBounded.1 hFirst,
        isPlain_embeddedItems strict items hBounded.2 hRest⟩

theorem isPlain_embeddedFields (strict : Bool) :
    ∀ (fields : List (Text × Value))
      {levels : Nat} {texts : List Text},
      Value.haveBounded fields = true →
      embeddedFields strict levels fields = .ok texts →
      ∀ text ∈ texts, IsPlain text
  | [] => fun _ hTexts => by
    cases hTexts
    exact fun _ hMem => absurd hMem List.not_mem_nil
  | (name, value) :: fields => fun hBounded hTexts => by
    rcases exists_of_embeddedFields_cons hTexts with
      ⟨hName, first, rest, hFirst, hRest, rfl⟩
    rw [Value.haveBounded, Bool.and_eq_true] at hBounded
    exact List.forall_mem_cons.mpr
      ⟨.append (.append (isPlain_of_isName hName) (by decide))
        (isPlain_embedded strict value hBounded.1 hFirst),
        isPlain_embeddedFields strict fields hBounded.2 hRest⟩

end

end Format

end ExperimentScript
