import ExperimentScript.Proofs.Json.Quoting

/-
  Texts in quotes of ASCII characters only, and back.

  A code point beyond ASCII is written by its units of sixteen
  bits. A reader joins two units that form a pair of
  surrogates, so a text is read back if no high surrogate in
  it stands just before a low one.

  Key definitions include:
    * `ExperimentScript.Text.isUnpaired`
    * `ExperimentScript.Text.IsAscii`
    * `ExperimentScript.Text.IsVisible`
    * `ExperimentScript.Json.asciiWritten`

  Main declarations:
    * `ExperimentScript.Json.isVisible_quoteAscii`
    * `ExperimentScript.Json.string_quoteAscii`
-/

namespace ExperimentScript

------------------------------------------------------------
-- Surrogates
------------------------------------------------------------

namespace CodePoint

/- Whether a code point can be the first of a pair of surrogates. -/
def isHigh (c : CodePoint) : Bool :=
  0xD800 ≤ c.toNat && c.toNat < 0xDC00

/- Whether a code point can be the second of a pair of surrogates. -/
def isLow (c : CodePoint) : Bool :=
  0xDC00 ≤ c.toNat && c.toNat < 0xE000

/- The numbers of surrogates are those of code points. -/
theorem toNat_ofNat_surrogate
    {n : Nat}
    (hFirst : 0xD800 ≤ n)
    (hLast : n < 0xE000) :
    (ofNat n).toNat = n := by
  have hInside : n - 0xD800 < 2048 ∧ 0xD800 ≤ n := by
    omega
  rw [ofNat, dif_pos hInside, toNat]
  exact Nat.add_sub_cancel' hFirst

/- The first unit of sixteen bits of a code point. -/
def firstUnit (c : CodePoint) : Nat :=
  if c.toNat < 0x10000 then c.toNat
  else 0xD800 + (c.toNat - 0x10000) / 0x400

/- Code points end with the last plane. -/
theorem toNat_lt (c : CodePoint) : c.toNat < 0x110000 := by
  cases c with
  | char c =>
      rcases c.valid with hBelow | hAbove
      · have hNumber : c.toNat < 0xD800 := hBelow
        rw [toNat]
        omega
      · exact hAbove.2
  | surrogate offset =>
      rw [toNat]
      omega

theorem firstUnit_lt (c : CodePoint) : c.firstUnit < 0x10000 := by
  have hLast := c.toNat_lt
  unfold firstUnit
  split
  · assumption
  · omega

/- The first unit is a low surrogate only where all of the code point is. -/
theorem isLow_ofNat_firstUnit
    {c : CodePoint}
    (hLow : c.isLow = false) :
    (ofNat c.firstUnit).isLow = false := by
  unfold firstUnit
  split
  · rw [Json.ofNat_toNat]
    exact hLow
  · rename_i hBeyond
    have hLast := c.toNat_lt
    have hHigh :
        0xD800 ≤ 0xD800 + (c.toNat - 0x10000) / 0x400 ∧
          0xD800 + (c.toNat - 0x10000) / 0x400 < 0xDC00 := by
      omega
    have hNumber :=
      toNat_ofNat_surrogate hHigh.1 (by omega)
    simp only [isLow, hNumber, Bool.and_eq_false_iff,
      decide_eq_false_iff_not]
    exact .inl (by omega)

end CodePoint

namespace Text

/- Whether no high surrogate stands just before a low one. -/
def isUnpaired : Text → Bool
  | [] => true
  | [_] => true
  | c :: d :: rest =>
    !(c.isHigh && d.isLow) && isUnpaired (d :: rest)

theorem isUnpaired_tail
    {c : CodePoint}
    {text : Text}
    (hText : isUnpaired (c :: text) = true) :
    isUnpaired text = true := by
  cases text with
  | nil => rfl
  | cons d rest =>
      rw [isUnpaired, Bool.and_eq_true] at hText
      exact hText.2

/- A text of ASCII characters. -/
def IsAscii (text : Text) : Prop :=
  ∀ c ∈ text, c.toNat < 0x80

instance (text : Text) : Decidable text.IsAscii :=
  inferInstanceAs (Decidable (∀ c ∈ text, c.toNat < 0x80))

/- A text of ASCII characters none of which is for control. -/
def IsVisible (text : Text) : Prop :=
  ∀ c ∈ text, 0x20 ≤ c.toNat ∧ c.toNat < 0x7F

instance (text : Text) : Decidable text.IsVisible :=
  inferInstanceAs
    (Decidable (∀ c ∈ text, 0x20 ≤ c.toNat ∧ c.toNat < 0x7F))

theorem IsVisible.append
    {front back : Text}
    (hFront : front.IsVisible)
    (hBack : back.IsVisible) :
    IsVisible (front ++ back) :=
  List.forall_mem_append.mpr ⟨hFront, hBack⟩

theorem IsVisible.cons
    {c : CodePoint}
    {text : Text}
    (hFirst : 0x20 ≤ c.toNat ∧ c.toNat < 0x7F)
    (hText : text.IsVisible) :
    IsVisible (c :: text) :=
  List.forall_mem_cons.mpr ⟨hFirst, hText⟩

end Text

namespace Json

open Text (IsVisible)

------------------------------------------------------------
-- Code Points By Their Units
------------------------------------------------------------

/- A code point as it stands in a string of ASCII characters. -/
def asciiWritten (c : CodePoint) : Text :=
  escaped (fun c => 0x20 ≤ c.toNat ∧ c.toNat < 0x7F) c

/- What stands between the quotes of a text. -/
def asciiBody (text : Text) : Text :=
  text.flatMap asciiWritten

theorem quoteAscii_eq (text : Text) :
    quoteAscii text =
      .char '"' :: (asciiBody text ++ [.char '"']) := rfl

@[simp] theorem asciiBody_nil : asciiBody [] = [] := rfl

@[simp] theorem asciiBody_cons
    (c : CodePoint)
    (text : Text) :
    asciiBody (c :: text) = asciiWritten c ++ asciiBody text := rfl

/- A code point is written in the ways of any quotes, or by its units. -/
theorem asciiWritten_cases (c : CodePoint) :
    (∃ letter : CodePoint,
      Lexeme.escape? letter = some c ∧
        asciiWritten c = [.char '\\', letter]) ∨
      (c ≠ '"' ∧ c ≠ '\\' ∧ 0x20 ≤ c.toNat ∧ c.toNat < 0x7F ∧
        asciiWritten c = [c]) ∨
      asciiWritten c = unitEscapes c := by
  unfold asciiWritten escaped
  cases hShort : shortEscape? c with
  | some letter =>
      exact .inl ⟨letter, escape?_of_shortEscape? hShort, rfl⟩
  | none =>
      rcases ne_of_shortEscape?_eq_none hShort with
        ⟨hQuote, hEscape⟩
      by_cases hPlain : 0x20 ≤ c.toNat ∧ c.toNat < 0x7F
      · refine .inr (.inl ⟨hQuote, hEscape, hPlain.1, hPlain.2, ?_⟩)
        simp [hPlain]
      · refine .inr (.inr ?_)
        simp [hPlain]

theorem unitEscapes_of_lt
    {c : CodePoint}
    (hUnit : c.toNat < 0x10000) :
    unitEscapes c = longEscape c.toNat := by
  simp only [unitEscapes, if_pos hUnit]

theorem unitEscapes_of_not_lt
    {c : CodePoint}
    (hBeyond : ¬ c.toNat < 0x10000) :
    unitEscapes c =
      longEscape (0xD800 + (c.toNat - 0x10000) / 0x400) ++
        longEscape (0xDC00 + (c.toNat - 0x10000) % 0x400) := by
  simp only [unitEscapes, if_neg hBeyond]

/- A code point that is written by its units begins with the first. -/
theorem exists_unitEscapes (c : CodePoint) :
    ∃ more, unitEscapes c = longEscape c.firstUnit ++ more := by
  unfold CodePoint.firstUnit
  by_cases hUnit : c.toNat < 0x10000
  · refine ⟨[], ?_⟩
    rw [if_pos hUnit, unitEscapes_of_lt hUnit, List.append_nil]
  · rw [if_neg hUnit, unitEscapes_of_not_lt hUnit]
    exact ⟨_, rfl⟩

------------------------------------------------------------
-- Visible Characters
------------------------------------------------------------

theorem isVisible_longEscape
    {n : Nat}
    (hUnit : n < 0x10000) :
    IsVisible (longEscape n) := by
  have hDigit :
      ∀ d, d < 16 →
        0x20 ≤ (CodePoint.char d.digitChar).toNat ∧
          (CodePoint.char d.digitChar).toNat < 0x7F := by
    decide
  rw [longEscape, hex_eq hUnit]
  refine .cons (by decide) (.cons (by decide) ?_)
  refine .cons (hDigit _ (by omega)) (.cons (hDigit _ (by omega)) ?_)
  refine .cons (hDigit _ (by omega)) (.cons (hDigit _ (by omega)) ?_)
  exact fun _ hMem => absurd hMem List.not_mem_nil

theorem isVisible_asciiWritten (c : CodePoint) :
    IsVisible (asciiWritten c) := by
  rcases asciiWritten_cases c with
    ⟨letter, hLetter, hShort⟩ | ⟨_, _, hFrom, hTo, hPlain⟩ | hUnits
  · have hVisible : 0x20 ≤ letter.toNat ∧ letter.toNat < 0x7F := by
      unfold Lexeme.escape? at hLetter
      split at hLetter
      all_goals first
        | decide
        | cases hLetter
    rw [hShort]
    exact .cons (by decide) (.cons hVisible fun _ hMem =>
      absurd hMem List.not_mem_nil)
  · rw [hPlain]
    exact .cons ⟨hFrom, hTo⟩ fun _ hMem =>
      absurd hMem List.not_mem_nil
  · have hLast := c.toNat_lt
    rw [hUnits]
    by_cases hUnit : c.toNat < 0x10000
    · rw [unitEscapes_of_lt hUnit]
      exact isVisible_longEscape hUnit
    · rw [unitEscapes_of_not_lt hUnit]
      exact (isVisible_longEscape (by omega)).append
        (isVisible_longEscape (by omega))

/- A string is written in such characters whatever its text. -/
theorem isVisible_quoteAscii (text : Text) :
    IsVisible (quoteAscii text) := by
  have hBody : IsVisible (asciiBody text) := by
    induction text with
    | nil => exact fun _ hMem => absurd hMem List.not_mem_nil
    | cons c text ih => exact (isVisible_asciiWritten c).append ih
  rw [quoteAscii_eq]
  refine .cons (by decide) (hBody.append ?_)
  exact .cons (by decide) fun _ hMem =>
    absurd hMem List.not_mem_nil

------------------------------------------------------------
-- Reading Back
------------------------------------------------------------

/-
  What is written after a high surrogate is no low one, so the
  two are not joined.
-/
theorem bind_joinSurrogates?_of_unpaired
    {c : CodePoint}
    {text rest tail : Text}
    {l₁ l₂ l₃ l₄ : CodePoint}
    (hText : Text.isUnpaired (c :: text) = true)
    (hFront :
      asciiBody text ++ .char '"' :: rest =
        .char '\\' :: .char 'u' :: l₁ :: l₂ :: l₃ :: l₄ :: tail) :
    (Lexeme.hexEscape? l₁ l₂ l₃ l₄).bind (joinSurrogates? c) =
      none := by
  cases text with
  | nil => cases hFront
  | cons d text =>
      rw [Text.isUnpaired, Bool.and_eq_true, Bool.not_eq_true',
        Bool.and_eq_false_iff] at hText
      rcases hText.1 with hHigh | hLow
      · refine bind_joinSurrogates?_of_not_high ?_ _
        simpa [CodePoint.isHigh] using hHigh
      rw [asciiBody_cons, List.append_assoc] at hFront
      rcases asciiWritten_cases d with
        ⟨letter, hLetter, hShort⟩ | ⟨_, hEscape, _, _, hPlain⟩ | hUnits
      · rw [hShort] at hFront
        injection hFront with _ hFront
        injection hFront with hLast _
        rw [hLast] at hLetter
        cases hLetter
      · rw [hPlain] at hFront
        injection hFront with hFirst _
        exact absurd hFirst hEscape
      · rcases exists_unitEscapes d with ⟨more, hFirst⟩
        rcases exists_hex_of_lt d.firstUnit_lt with
          ⟨h₁, h₂, h₃, h₄, hHex, hDigits⟩
        rw [hUnits, hFirst, longEscape, hHex] at hFront
        injection hFront with _ hFront
        injection hFront with _ hFront
        injection hFront with hOne hFront
        injection hFront with hTwo hFront
        injection hFront with hThree hFront
        injection hFront with hFour _
        rw [hOne, hTwo, hThree, hFour] at hDigits
        have hNotLow := CodePoint.isLow_ofNat_firstUnit hLow
        have hNone :
            ¬ (0xD800 ≤ c.toNat ∧ c.toNat < 0xDC00 ∧
              0xDC00 ≤ (CodePoint.ofNat d.firstUnit).toNat ∧
              (CodePoint.ofNat d.firstUnit).toNat < 0xE000) := by
          rintro ⟨_, _, hFrom, hTo⟩
          simp [CodePoint.isLow, hFrom, hTo] at hNotLow
        simp only [hDigits, Option.bind_some, joinSurrogates?,
          if_neg hNone]

theorem joinSurrogates?_of_pair
    {high low : CodePoint}
    (hPair :
      0xD800 ≤ high.toNat ∧ high.toNat < 0xDC00 ∧
        0xDC00 ≤ low.toNat ∧ low.toNat < 0xE000) :
    joinSurrogates? high low =
      some (.ofNat (0x10000 + (high.toNat - 0xD800) * 0x400 +
        (low.toNat - 0xDC00))) := by
  simp only [joinSurrogates?, if_pos hPair]

/- The two units of a code point beyond sixteen bits are joined. -/
theorem stringBody?_of_pair
    {c : CodePoint}
    (hBeyond : ¬ c.toNat < 0x10000)
    (rest : Text) :
    stringBody? (unitEscapes c ++ rest) =
      (stringBody? rest).map (withFirst c) := by
  have hLast := c.toNat_lt
  obtain ⟨high, hHigh⟩ :
      ∃ high, 0xD800 + (c.toNat - 0x10000) / 0x400 = high :=
    ⟨_, rfl⟩
  obtain ⟨low, hLow⟩ :
      ∃ low, 0xDC00 + (c.toNat - 0x10000) % 0x400 = low :=
    ⟨_, rfl⟩
  rcases exists_hex_of_lt (show high < 0x10000 by omega) with
    ⟨h₁, h₂, h₃, h₄, hHighHex, hHighDigits⟩
  rcases exists_hex_of_lt (show low < 0x10000 by omega) with
    ⟨l₁, l₂, l₃, l₄, hLowHex, hLowDigits⟩
  have hHighNumber :=
    CodePoint.toNat_ofNat_surrogate
      (show 0xD800 ≤ high by omega) (by omega)
  have hLowNumber :=
    CodePoint.toNat_ofNat_surrogate
      (show 0xD800 ≤ low by omega) (by omega)
  have hJoined :
      (Lexeme.hexEscape? l₁ l₂ l₃ l₄).bind
          (joinSurrogates? (CodePoint.ofNat high)) =
        some c := by
    have hNumber :
        0x10000 + (high - 0xD800) * 0x400 + (low - 0xDC00) =
          c.toNat := by
      omega
    rw [hLowDigits, Option.bind_some,
      joinSurrogates?_of_pair (by omega), hHighNumber, hLowNumber,
      hNumber, ofNat_toNat]
  have hEscapes :
      unitEscapes c ++ rest =
        .char '\\' :: .char 'u' :: h₁ :: h₂ :: h₃ :: h₄ ::
          .char '\\' :: .char 'u' :: l₁ :: l₂ :: l₃ :: l₄ ::
            rest := by
    rw [unitEscapes_of_not_lt hBeyond, hHigh, hLow, longEscape,
      longEscape, hHighHex, hLowHex]
    rfl
  rw [hEscapes, stringBody?.eq_def]
  simp only [hHighDigits, hJoined]

/- What stands between the quotes of a text is read as the text. -/
theorem stringBody?_asciiBody
    {text : Text}
    (hText : text.isUnpaired = true)
    (rest : Text) :
    stringBody? (asciiBody text ++ .char '"' :: rest) =
      some (text, rest) := by
  induction text with
  | nil =>
      rw [asciiBody_nil, List.nil_append, stringBody?.eq_def]
      rfl
  | cons c text ih =>
      have hStep :
          stringBody?
              (asciiWritten c ++
                (asciiBody text ++ .char '"' :: rest)) =
            (stringBody? (asciiBody text ++ .char '"' :: rest)).map
              (withFirst c) := by
        rcases asciiWritten_cases c with
          ⟨letter, hLetter, hShort⟩ |
            ⟨hQuote, hEscape, hFrom, _, hPlain⟩ | hUnits
        · rw [hShort]
          exact stringBody?_of_isWritten (.short letter hLetter) _
        · rw [hPlain]
          exact
            stringBody?_of_isWritten (.plain hQuote hEscape hFrom) _
        · rw [hUnits]
          by_cases hUnit : c.toNat < 0x10000
          · rcases exists_hex_of_lt hUnit with
              ⟨h₁, h₂, h₃, h₄, hHex, hDigits⟩
            rw [ofNat_toNat] at hDigits
            rw [unitEscapes_of_lt hUnit, longEscape, hHex]
            exact stringBody?_of_unit hDigits
              fun _ _ _ _ _ hFront =>
                bind_joinSurrogates?_of_unpaired hText hFront
          · exact stringBody?_of_pair hUnit _
      rw [asciiBody_cons, List.append_assoc, hStep,
        ih (Text.isUnpaired_tail hText)]
      rfl

/- A string is read as the text that it was written for. -/
theorem string_quoteAscii
    {text : Text}
    (hText : text.isUnpaired = true)
    (rest : Text) :
    string (quoteAscii text ++ rest) = .ok (text, rest) := by
  rw [quoteAscii_eq, List.cons_append, List.append_assoc]
  exact string_of_stringBody? (stringBody?_asciiBody hText rest)

end Json

end ExperimentScript
