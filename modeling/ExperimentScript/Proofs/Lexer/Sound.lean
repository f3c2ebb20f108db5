import ExperimentScript.Proofs.Number.Numeral

/-
  What is known of the tokens of a text.

  An identifier is a name, since a word that is reserved gives
  a token of its own kind. A number is within the bounds that
  numbers are checked against, and a string stands for a text.

  Key definitions include:
    * `ExperimentScript.Token.isSound`
    * `ExperimentScript.Lexeme.Sound`

  Main declarations:
    * `ExperimentScript.Lexeme.number_eq_ok_iff`
    * `ExperimentScript.Lexeme.sound_next`
    * `ExperimentScript.isSound_of_tokenize`
-/

namespace ExperimentScript

------------------------------------------------------------
-- Sound Tokens
------------------------------------------------------------

/-
  Whether a token is one that a script can spell: identifiers
  are names, and constants are scalars within bounds.
-/
def Token.isSound (token : Token) : Bool :=
  match token.kind with
  | .identifier => Format.isName token.text
  | .number | .string =>
    (token.literal.getD .null).isScalar &&
      (token.literal.getD .null).isBounded
  | _ => true

/- Kinds of tokens of which nothing more is known. -/
def TokenKind.isBare : TokenKind → Bool
  | .identifier | .number | .string => false
  | _ => true

/- A token of a word or sign is sound. -/
theorem Token.isSound_of_isBare
    {token : Token}
    (hBare : token.kind.isBare = true) :
    token.isSound = true := by
  unfold isSound
  split
  all_goals simp_all [TokenKind.isBare]

namespace Lexeme

/- The token of a lexeme is sound wherever it stands. -/
def Sound (lexeme : Lexeme) : Prop :=
  ∀ kind ∈ lexeme.kind, ∀ span,
    Token.isSound ⟨kind, lexeme.text, span, lexeme.literal⟩ = true

------------------------------------------------------------
-- Lexemes Of Each Class
------------------------------------------------------------

theorem sound_skipped (text : Text) : (skipped text).Sound := by
  intro kind hKind
  cases hKind

/- A constant that is a scalar within bounds is sound. -/
theorem sound_literal
    {text : Text}
    {kind : TokenKind}
    {value : Value}
    (hKind : kind = .number ∨ kind = .string)
    (hValue : value.isScalar = true ∧ value.isBounded = true) :
    Sound ⟨text, some kind, some value⟩ := by
  intro found hFound span
  cases hFound
  rcases hKind with rfl | rfl
  · simpa [Token.isSound] using hValue
  · simpa [Token.isSound] using hValue

/- What holds of all kinds of a table holds of one found in it. -/
theorem of_lookup
    (good : TokenKind → Bool)
    {table : List (Text × TokenKind)}
    {text : Text}
    {kind : TokenKind}
    (hTable : ∀ entry ∈ table, good entry.2 = true)
    (hLookup : table.lookup text = some kind) :
    good kind = true := by
  induction table with
  | nil => cases hLookup
  | cons entry table ih =>
      rcases entry with ⟨spelling, found⟩
      rw [List.lookup_cons] at hLookup
      split at hLookup
      · cases hLookup
        exact hTable _ (List.mem_cons_self ..)
      · exact ih (fun entry hMem => hTable entry (by simp [hMem]))
          hLookup

theorem sound_plain
    {text : Text}
    {kind : TokenKind}
    (hBare : kind.isBare = true) :
    (plain text kind).Sound := by
  intro found hFound span
  cases hFound
  exact Token.isSound_of_isBare hBare

/- A word that begins with a letter is reserved or a name. -/
theorem sound_word
    {c : CodePoint}
    (hLetter : c.isAsciiLetter = true)
    (rest : Text) :
    (word (c :: rest)).Sound := by
  have hWritten :
      (c :: rest).takeWhile CodePoint.continuesName =
        c :: rest.takeWhile CodePoint.continuesName := by
    simp [CodePoint.continuesName, hLetter]
  rw [word, hWritten]
  cases hLookup :
      TokenKind.words.lookup
        (c :: rest.takeWhile CodePoint.continuesName) with
  | some kind =>
      simp only [Option.getD_some]
      exact sound_plain (of_lookup TokenKind.isBare (by decide) hLookup)
  | none =>
      intro kind hKind span
      cases hKind
      simp only [Token.isSound, plain, Option.getD_none,
        Format.isName, hLetter, hLookup, Option.isNone_none,
        Bool.and_true, Bool.true_and]
      exact List.all_takeWhile

theorem sound_sign
    {c : CodePoint}
    {rest : Text}
    {lexeme : Lexeme}
    (hSign : sign c rest = .ok lexeme) :
    lexeme.Sound := by
  simp only [sign] at hSign
  split at hSign
  · rename_i kind hLookup
    cases hSign
    exact sound_plain (of_lookup TokenKind.isBare (by decide) hLookup)
  · split at hSign
    · rename_i kind hLookup
      cases hSign
      exact sound_plain (of_lookup TokenKind.isBare (by decide) hLookup)
    · cases hSign

theorem sound_doubleQuoted
    {rest : Text}
    {lexeme : Lexeme}
    (hQuoted : doubleQuoted rest = .ok lexeme) :
    lexeme.Sound := by
  unfold doubleQuoted at hQuoted
  split at hQuoted
  · cases hQuoted
    exact sound_literal (.inr rfl) ⟨rfl, rfl⟩
  · cases hQuoted

theorem sound_singleQuoted
    {rest : Text}
    {lexeme : Lexeme}
    (hQuoted : singleQuoted rest = .ok lexeme) :
    lexeme.Sound := by
  unfold singleQuoted at hQuoted
  split at hQuoted
  · cases hQuoted
    exact sound_literal (.inr rfl) ⟨rfl, rfl⟩
  · cases hQuoted

/- What is read as a number is the longest one, with its value. -/
theorem number_eq_ok_iff {text : Text} {lexeme : Lexeme} :
    number text = .ok lexeme ↔
      ∃ (numeral : Numeral) (value : Value),
        numberPart? text = some numeral.text ∧
          numberValue numeral.text = .ok value ∧
          lexeme = ⟨numeral.text, some .number, some value⟩ := by
  constructor
  · intro hNumber
    unfold number at hNumber
    cases hPart : numberPart? text with
    | none =>
        rw [hPart] at hNumber
        cases hNumber
    | some written =>
        rcases numberPart?_eq_some hPart with ⟨numeral, rfl⟩
        cases hValue : numberValue numeral.text with
        | error cause =>
            simp only [hPart, hValue] at hNumber
            cases hNumber
        | ok value =>
            simp only [hPart, hValue] at hNumber
            cases hNumber
            exact ⟨numeral, value, rfl, hValue, rfl⟩
  · rintro ⟨numeral, value, hPart, hValue, rfl⟩
    simp only [number, hPart, hValue]
    rfl

theorem sound_number
    {text : Text}
    {lexeme : Lexeme}
    (hNumber : number text = .ok lexeme) :
    lexeme.Sound := by
  rcases number_eq_ok_iff.mp hNumber with
    ⟨numeral, value, -, hValue, rfl⟩
  exact
    sound_literal (.inl rfl) (isBounded_of_numberValue numeral hValue)

/- Every lexeme that is read is sound. -/
theorem sound_next
    {operandEnded : Bool}
    {c : CodePoint}
    {rest : Text}
    {lexeme : Lexeme}
    (hNext : next operandEnded c rest = .ok lexeme) :
    lexeme.Sound := by
  unfold next at hNext
  split at hNext
  · cases hNext
    exact sound_skipped _
  split at hNext
  · cases hNext
    exact sound_skipped _
  split at hNext
  · exact sound_doubleQuoted hNext
  split at hNext
  · exact sound_singleQuoted hNext
  split at hNext
  · exact sound_number hNext
  split at hNext
  · rename_i hLetter
    cases hNext
    exact sound_word hLetter rest
  · exact sound_sign hNext

end Lexeme

------------------------------------------------------------
-- Whole Texts
------------------------------------------------------------

theorem scanFrom_nil (operandEnded : Bool) (point : Point) :
    scanFrom operandEnded point [] = ⟨[.endAt point], none⟩ := by
  rw [scanFrom.eq_def]

/- A text that begins with a lexeme is scanned from the end of it. -/
theorem scanFrom_of_next
    {operandEnded : Bool}
    {c : CodePoint}
    {rest : Text}
    {lexeme : Lexeme}
    (hNext : Lexeme.next operandEnded c rest = .ok lexeme)
    (point : Point) :
    scanFrom operandEnded point (c :: rest) =
      (scanFrom (lexeme.endsOperand operandEnded)
        (point.advance lexeme.text)
        (rest.drop (lexeme.text.length - 1))).push point lexeme := by
  rw [scanFrom.eq_def]
  simp only [hNext]

theorem scanFrom_of_error
    {operandEnded : Bool}
    {c : CodePoint}
    {rest : Text}
    {cause : LexCause}
    (hNext : Lexeme.next operandEnded c rest = .error cause)
    (point : Point) :
    scanFrom operandEnded point (c :: rest) =
      ⟨[], some ⟨cause, point⟩⟩ := by
  rw [scanFrom.eq_def]
  simp only [hNext]

/- Every token that scanning gives is sound. -/
theorem isSound_of_scanFrom
    (operandEnded : Bool)
    (point : Point)
    (text : Text) :
    ∀ token ∈ (scanFrom operandEnded point text).tokens,
      token.isSound = true := by
  induction operandEnded, point, text using scanFrom.induct with
  | case1 operandEnded point =>
      intro token hMem
      rw [scanFrom_nil] at hMem
      cases List.mem_singleton.mp hMem
      rfl
  | case2 operandEnded point c rest cause hNext =>
      intro token hMem
      rw [scanFrom_of_error hNext] at hMem
      cases hMem
  | case3 operandEnded point c rest lexeme hNext ih =>
      intro token hMem
      rw [scanFrom_of_next hNext, Scan.push] at hMem
      split at hMem
      · exact ih token hMem
      · rename_i kind hKind
        rcases List.mem_cons.mp hMem with rfl | hLater
        · exact Lexeme.sound_next hNext kind hKind _
        · exact ih token hLater

/- Every token of a text is sound. -/
theorem isSound_of_tokenize
    {text : Text}
    {tokens : List Token}
    (hTokens : tokenize text = .ok tokens) :
    ∀ token ∈ tokens, token.isSound = true := by
  simp only [tokenize] at hTokens
  split at hTokens
  · cases hTokens
  · cases hTokens
    exact isSound_of_scanFrom _ _ _

end ExperimentScript
