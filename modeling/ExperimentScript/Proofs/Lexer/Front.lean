import Mathlib.Data.List.TakeWhile
import ExperimentScript.Proofs.Lexer.Spelling

/-
  Where a lexeme is read: at the front of a text.

  `Reads` lists the classes of lexemes with what is known of
  each. Whatever its class, a lexeme is a part of the text
  that is not empty and comes first in it, and one that gives
  a token neither begins with blank space nor ends a line.

  Key definitions include:
    * `ExperimentScript.Lexeme.Reads`
    * `ExperimentScript.Lexeme.StringBody`
    * `ExperimentScript.Lexeme.HasSolidEnds`

  Main declarations:
    * `ExperimentScript.Lexeme.reads_of_next`
    * `ExperimentScript.Lexeme.body_of_doubleQuoted?`
    * `ExperimentScript.Lexeme.Reads.exists_after`
    * `ExperimentScript.Lexeme.Reads.hasSolidEnds`
-/

namespace ExperimentScript

namespace Lexeme

------------------------------------------------------------
-- Classes Of Lexemes
------------------------------------------------------------

/- The lexeme at the front of a text, class by class. -/
inductive Reads : CodePoint → Text → Lexeme → Prop where
  | blank
      {c : CodePoint}
      {rest : Text}
      (hBlank : c.isBlank = true) :
      Reads c rest (skipped [c])
  | comment {rest : Text} :
      Reads '#' rest (comment rest)
  | doubleQuoted
      {rest written value : Text}
      (hQuoted : doubleQuoted? rest = some (written, value)) :
      Reads '"' rest
        ⟨.char '"' :: written, some .string, some (.text value)⟩
  | singleQuoted
      {rest body after : Text}
      (hCut : rest.cut? (.char '\'') = some (body, after)) :
      Reads '\'' rest
        ⟨.char '\'' :: body ++ [.char '\''],
          some .string, some (.text body)⟩
  | number
      {c : CodePoint}
      {rest written : Text}
      {value : Value}
      (hWritten : numberPart? (c :: rest) = some written) :
      Reads c rest ⟨written, some .number, some value⟩
  | word
      {c : CodePoint}
      {rest : Text}
      (hLetter : c.isAsciiLetter = true) :
      Reads c rest (word (c :: rest))
  | longSign
      {c : CodePoint}
      {rest : Text}
      {kind : TokenKind}
      (hLong :
        TokenKind.longSigns.lookup (c :: rest.take 1) =
          some kind) :
      Reads c rest (plain (c :: rest.take 1) kind)
  | shortSign
      {c : CodePoint}
      {rest : Text}
      {kind : TokenKind}
      (hLong :
        TokenKind.longSigns.lookup (c :: rest.take 1) = none)
      (hShort : TokenKind.shortSigns.lookup [c] = some kind) :
      Reads c rest (plain [c] kind)

/- A lexeme that is read belongs to one of the classes. -/
theorem reads_of_next
    {ended : Bool}
    {c : CodePoint}
    {rest : Text}
    {lexeme : Lexeme}
    (hNext : next ended c rest = .ok lexeme) :
    Reads c rest lexeme := by
  unfold next at hNext
  split at hNext
  · rename_i hBlank
    cases hNext
    exact .blank hBlank
  split at hNext
  · rename_i hMark
    cases hMark
    cases hNext
    exact .comment
  split at hNext
  · rename_i hMark
    cases hMark
    unfold ExperimentScript.Lexeme.doubleQuoted at hNext
    split at hNext
    · rename_i written value hQuoted
      cases hNext
      exact .doubleQuoted hQuoted
    · cases hNext
  split at hNext
  · rename_i hMark
    cases hMark
    unfold ExperimentScript.Lexeme.singleQuoted at hNext
    split at hNext
    · rename_i body after hCut
      cases hNext
      exact .singleQuoted hCut
    · cases hNext
  split at hNext
  · rcases number_eq_ok_iff.mp hNext with
      ⟨numeral, value, hWritten, -, rfl⟩
    exact .number hWritten
  split at hNext
  · rename_i hLetter
    cases hNext
    exact .word hLetter
  · simp only [sign] at hNext
    split at hNext
    · rename_i kind hLong
      cases hNext
      exact .longSign hLong
    · rename_i hLong
      split at hNext
      · rename_i kind hShort
        cases hNext
        exact .shortSign hLong hShort
      · cases hNext

------------------------------------------------------------
-- Strings
------------------------------------------------------------

/-
  What is written of a string after its opening double quote.
  A stroke and what comes after it stand together, whatever
  they stand for.
-/
inductive StringBody : Text → Prop where
  | close : StringBody [.char '"']
  | escape
      (e : CodePoint)
      {written : Text}
      (hMore : StringBody written) :
      StringBody (.char '\\' :: e :: written)
  | verbatim
      {c : CodePoint}
      {written : Text}
      (hQuote : c ≠ '"')
      (hStroke : c ≠ '\\')
      (hMore : StringBody written) :
      StringBody (c :: written)

theorem StringBody.getLast_eq
    {written : Text}
    (hBody : StringBody written) :
    ∃ inner, written = inner ++ [.char '"'] := by
  induction hBody with
  | close => exact ⟨[], rfl⟩
  | escape e hMore ih =>
      rcases ih with ⟨inner, rfl⟩
      exact ⟨.char '\\' :: e :: inner, rfl⟩
  | @verbatim c written hQuote hStroke hMore ih =>
      rcases ih with ⟨inner, rfl⟩
      exact ⟨c :: inner, rfl⟩

/- A hexadecimal digit is neither a quote nor a stroke. -/
theorem ne_of_isSome_hexValue?
    {c : CodePoint}
    (hDigit : c.hexValue?.isSome = true) :
    c ≠ '"' ∧ c ≠ '\\' := by
  constructor
  · rintro rfl
    cases hDigit
  · rintro rfl
    cases hDigit

/- A hexadecimal digit stands for itself in a string. -/
theorem StringBody.digit
    {c : CodePoint}
    {written : Text}
    (hDigit : c.hexValue?.isSome = true)
    (hMore : StringBody written) :
    StringBody (c :: written) :=
  .verbatim (ne_of_isSome_hexValue? hDigit).1
    (ne_of_isSome_hexValue? hDigit).2 hMore

/- Four digits that make up an escape are hexadecimal. -/
theorem isSome_of_hexEscape?
    {h₁ h₂ h₃ h₄ c : CodePoint}
    (hEscape : hexEscape? h₁ h₂ h₃ h₄ = some c) :
    ∀ h ∈ [h₁, h₂, h₃, h₄], h.hexValue?.isSome = true := by
  simp only [hexEscape?, Option.bind_eq_bind,
    Option.bind_eq_some_iff] at hEscape
  rcases hEscape with ⟨a, hA, b, hB, c, hC, d, hD, _⟩
  simp [hA, hB, hC, hD]

/- What was put in front of the rest of a string comes first in it. -/
theorem eq_of_map_withFront
    {front value written whole : Text}
    {more : Option (Text × Text)}
    (hMap : more.map (withFront front value) = some (written, whole)) :
    ∃ later, more = some later ∧ written = front ++ later.1 := by
  rcases Option.map_eq_some_iff.mp hMap with ⟨later, hMore, hPair⟩
  exact ⟨later, hMore, (congrArg Prod.fst hPair).symm⟩

/- What is read of a string stands at the front and is its body. -/
theorem body_of_doubleQuoted?
    {text written value : Text}
    (hQuoted : doubleQuoted? text = some (written, value)) :
    StringBody written ∧ written <+: text := by
  induction text using doubleQuoted?.induct generalizing
    written value with
  | case1 => cases hQuoted
  | case2 rest =>
      rw [doubleQuoted?] at hQuoted
      cases hQuoted
      exact ⟨.close, rest, rfl⟩
  | case3 h₁ h₂ h₃ h₄ rest c hEscape ih =>
      simp only [doubleQuoted?, hEscape] at hQuoted
      rcases eq_of_map_withFront hQuoted with
        ⟨⟨more, moreValue⟩, hMore, rfl⟩
      rcases ih hMore with ⟨hBody, after, rfl⟩
      have hDigits := isSome_of_hexEscape? hEscape
      simp only [List.forall_mem_cons] at hDigits
      rcases hDigits with ⟨hFirst, hSecond, hThird, hFourth, _⟩
      exact
        ⟨.escape _ (.digit hFirst (.digit hSecond
          (.digit hThird (.digit hFourth hBody)))), after, rfl⟩
  | case4 h₁ h₂ h₃ h₄ rest hEscape ih =>
      simp only [doubleQuoted?, hEscape] at hQuoted
      rcases eq_of_map_withFront hQuoted with
        ⟨⟨more, moreValue⟩, hMore, rfl⟩
      rcases ih hMore with ⟨hBody, after, hText⟩
      rw [← hText]
      exact ⟨.escape _ hBody, after, rfl⟩
  | case5 e rest hOther ih =>
      rw [doubleQuoted?.eq_4 _ _ hOther] at hQuoted
      rcases eq_of_map_withFront hQuoted with
        ⟨⟨more, moreValue⟩, hMore, rfl⟩
      rcases ih hMore with ⟨hBody, after, rfl⟩
      exact ⟨.escape _ hBody, after, rfl⟩
  | case6 =>
      rw [doubleQuoted?] at hQuoted
      cases hQuoted
  | case7 c rest hQuote hLong hShort hLone ih =>
      rw [doubleQuoted?.eq_6 _ _ hQuote hLong hShort hLone]
        at hQuoted
      rcases eq_of_map_withFront hQuoted with
        ⟨⟨more, moreValue⟩, hMore, rfl⟩
      rcases ih hMore with ⟨hBody, after, rfl⟩
      have hStroke : c ≠ '\\' := by
        intro hSame
        cases hTail : more ++ after with
        | nil => exact hLone hSame hTail
        | cons e tail => exact hShort e tail hSame hTail
      exact ⟨.verbatim hQuote hStroke hBody, after, rfl⟩

/- A text that is cut at a mark holds what is before the mark first. -/
theorem eq_of_cut?
    {mark : CodePoint}
    {text before after : Text}
    (hCut : text.cut? mark = some (before, after)) :
    text = before ++ mark :: after ∧ mark ∉ before := by
  induction text generalizing before with
  | nil => cases hCut
  | cons c rest ih =>
      rw [Text.cut?] at hCut
      split at hCut
      · rename_i hMark
        cases hCut
        exact ⟨by rw [hMark]; rfl, List.not_mem_nil⟩
      · rename_i hOther
        rcases Option.map_eq_some_iff.mp hCut with
          ⟨⟨front, tail⟩, hTail, hPair⟩
        cases hPair
        rcases ih hTail with ⟨hText, hMark⟩
        refine ⟨by rw [hText]; rfl, ?_⟩
        rw [List.mem_cons, not_or]
        exact ⟨fun hSame => hOther hSame.symm, hMark⟩

------------------------------------------------------------
-- Numbers
------------------------------------------------------------

/- Parts that come one after another at the front come first together. -/
theorem isPrefix_append
    {front part text : Text}
    (hFront : front <+: text)
    (hPart : part <+: text.drop front.length) :
    front ++ part <+: text := by
  rcases hFront with ⟨rest, rfl⟩
  rw [List.drop_left] at hPart
  exact (List.prefix_append_right_inj front).mpr hPart

theorem isPrefix_signPart (text : Text) : signPart text <+: text := by
  unfold signPart
  split
  · exact List.prefix_append [_] _
  · exact List.prefix_append [_] _
  · exact List.nil_prefix

theorem isPrefix_fractionPart (text : Text) :
    fractionPart text <+: text := by
  unfold fractionPart
  split
  · split
    · exact List.nil_prefix
    · exact List.cons_prefix_cons.mpr
        ⟨rfl, List.takeWhile_prefix _⟩
  · exact List.nil_prefix

theorem isPrefix_exponentPart (text : Text) :
    exponentPart text <+: text := by
  unfold exponentPart
  split
  · split
    · dsimp only
      split
      · exact List.nil_prefix
      · exact List.cons_prefix_cons.mpr
          ⟨rfl, isPrefix_append (isPrefix_signPart _)
            (List.takeWhile_prefix _)⟩
    · exact List.nil_prefix
  · exact List.nil_prefix

/- The number at the front of a text comes first in it. -/
theorem isPrefix_of_numberPart?
    {text written : Text}
    (hWritten : numberPart? text = some written) :
    written <+: text := by
  simp only [numberPart?] at hWritten
  split at hWritten
  · cases hWritten
  · cases hWritten
    refine isPrefix_append (isPrefix_append (isPrefix_append
      (isPrefix_signPart _) (List.takeWhile_prefix _)) ?_) ?_
    · rw [List.length_append, ← List.drop_drop]
      exact isPrefix_fractionPart _
    · rw [List.length_append, List.length_append,
        ← List.drop_drop, ← List.drop_drop]
      exact isPrefix_exponentPart _

/- A number is not empty. -/
theorem numberPart?_ne_nil
    {text written : Text}
    (hWritten : numberPart? text = some written) :
    written ≠ [] := by
  rcases numberPart?_eq_some hWritten with ⟨numeral, rfl⟩
  intro hNone
  simp only [Numeral.text, List.append_eq_nil_iff] at hNone
  exact numeral.not_empty ⟨hNone.1.1.2, hNone.1.2⟩

------------------------------------------------------------
-- Texts Without Blank Space
------------------------------------------------------------

/- A text without any blank space. -/
def IsSolid (text : Text) : Prop :=
  ∀ c ∈ text, c.isBlank = false

/- A text that begins and ends with something else than blank space. -/
def HasSolidEnds (text : Text) : Prop :=
  (∀ c ∈ text.head?, c.isBlank = false) ∧
    ∀ c ∈ text.getLast?, c.isBlank = false

theorem IsSolid.hasSolidEnds
    {text : Text}
    (hSolid : IsSolid text) :
    HasSolidEnds text :=
  ⟨fun c hMem => hSolid c (List.mem_of_mem_head? hMem),
    fun c hMem => hSolid c (List.mem_of_mem_getLast? hMem)⟩

/- What stands between two quotes begins and ends with them. -/
theorem hasSolidEnds_quoted
    {quote : CodePoint}
    (hQuote : quote.isBlank = false)
    (body : Text) :
    HasSolidEnds (quote :: (body ++ [quote])) := by
  constructor
  · intro c hMem
    cases hMem
    exact hQuote
  · intro c hMem
    rw [← List.cons_append, List.getLast?_concat] at hMem
    cases hMem
    exact hQuote

theorem isSolid_numeral (numeral : Numeral) :
    IsSolid numeral.text :=
  numeral.forall_mem_text
    (fun _ hDigit => CodePoint.isBlank_of_isAsciiDigit hDigit)
    (by decide)

theorem isBlank_of_continuesName
    {c : CodePoint}
    (hName : c.continuesName = true) :
    c.isBlank = false := by
  simp only [CodePoint.continuesName, Bool.or_eq_true,
    beq_iff_eq] at hName
  rcases hName with (hLetter | hDigit) | rfl
  · exact CodePoint.isBlank_of_isAsciiLetter hLetter
  · exact CodePoint.isBlank_of_isAsciiDigit hDigit
  · rfl

theorem isSolid_takeWhile (text : Text) :
    IsSolid (text.takeWhile CodePoint.continuesName) :=
  fun _ hMem => isBlank_of_continuesName (List.mem_takeWhile_imp hMem)

/- What is looked up in a table stands in it. -/
theorem mem_of_lookup
    {table : List (Text × TokenKind)}
    {text : Text}
    {kind : TokenKind}
    (hLookup : table.lookup text = some kind) :
    (text, kind) ∈ table := by
  rcases List.lookup_eq_some_iff.mp hLookup with
    ⟨before, after, rfl, _⟩
  simp

theorem isSolid_of_lookup
    {text : Text}
    {kind : TokenKind}
    (hLookup :
      TokenKind.longSigns.lookup text = some kind ∨
        TokenKind.shortSigns.lookup text = some kind) :
    IsSolid text := by
  have hTables :
      ∀ entry ∈ TokenKind.longSigns ++ TokenKind.shortSigns,
        ∀ c ∈ entry.1, c.isBlank = false := by
    decide
  have hMem :
      (text, kind) ∈
        TokenKind.longSigns ++ TokenKind.shortSigns := by
    rw [List.mem_append]
    exact hLookup.imp mem_of_lookup mem_of_lookup
  exact hTables _ hMem

/- What holds of reserved words and of identifiers holds of words. -/
theorem of_word
    (good : TokenKind → Bool)
    {text : Text}
    {kind : TokenKind}
    (hWords : ∀ entry ∈ TokenKind.words, good entry.2 = true)
    (hIdentifier : good .identifier = true)
    (hKind : (word text).kind = some kind) :
    good kind = true := by
  cases hLookup :
      TokenKind.words.lookup
        (text.takeWhile CodePoint.continuesName) with
  | none =>
      rw [word, hLookup] at hKind
      cases hKind
      exact hIdentifier
  | some found =>
      rw [word, hLookup] at hKind
      cases hKind
      exact of_lookup good hWords hLookup

------------------------------------------------------------
-- Lexemes At The Front Of A Text
------------------------------------------------------------

namespace Reads

variable {c : CodePoint}
variable {rest : Text}
variable {lexeme : Lexeme}

/- The text of a lexeme comes first in the text it is read from. -/
theorem exists_after
    (hReads : Reads c rest lexeme) :
    ∃ more after, lexeme.text = c :: more ∧ rest = more ++ after := by
  cases hReads with
  | blank => exact ⟨[], rest, rfl, rfl⟩
  | comment =>
      exact
        ⟨_, _, rfl, (List.takeWhile_append_dropWhile).symm⟩
  | doubleQuoted hQuoted =>
      rcases (body_of_doubleQuoted? hQuoted).2 with ⟨after, rfl⟩
      exact ⟨_, after, rfl, rfl⟩
  | @singleQuoted _ body after hCut =>
      refine ⟨body ++ [.char '\''], after, rfl, ?_⟩
      rw [(eq_of_cut? hCut).1, List.append_assoc]
      rfl
  | @number _ _ written _ hWritten =>
      have hPrefix := isPrefix_of_numberPart? hWritten
      cases written with
      | nil => exact absurd rfl (numberPart?_ne_nil hWritten)
      | cons first more =>
          rcases List.cons_prefix_cons.mp hPrefix with
            ⟨rfl, after, rfl⟩
          exact ⟨more, after, rfl, rfl⟩
  | word hLetter =>
      have hFirst : c.continuesName = true := by
        simp [CodePoint.continuesName, hLetter]
      refine
        ⟨rest.takeWhile CodePoint.continuesName, _, ?_,
          (List.takeWhile_append_dropWhile).symm⟩
      simp [Lexeme.word, plain, hFirst]
  | longSign =>
      exact ⟨_, _, rfl, (List.take_append_drop 1 rest).symm⟩
  | shortSign => exact ⟨[], rest, rfl, rfl⟩

/- What gives a token begins and ends with something to see. -/
theorem hasSolidEnds
    {kind : TokenKind}
    (hReads : Reads c rest lexeme)
    (hKind : lexeme.kind = some kind) :
    HasSolidEnds lexeme.text := by
  cases hReads with
  | blank => cases hKind
  | comment => cases hKind
  | doubleQuoted hQuoted =>
      rcases (body_of_doubleQuoted? hQuoted).1.getLast_eq with
        ⟨inner, rfl⟩
      exact hasSolidEnds_quoted rfl inner
  | singleQuoted => exact hasSolidEnds_quoted rfl _
  | number hWritten =>
      rcases numberPart?_eq_some hWritten with ⟨numeral, rfl⟩
      exact (isSolid_numeral numeral).hasSolidEnds
  | word => exact (isSolid_takeWhile _).hasSolidEnds
  | longSign hLong => exact (isSolid_of_lookup (.inl hLong)).hasSolidEnds
  | shortSign _ hShort =>
      exact (isSolid_of_lookup (.inr hShort)).hasSolidEnds

/- No lexeme gives the token at the end of a script. -/
theorem kind_ne
    (hReads : Reads c rest lexeme) :
    lexeme.kind ≠ some .endOfInput := by
  intro hKind
  cases hReads with
  | blank => cases hKind
  | comment => cases hKind
  | doubleQuoted => cases hKind
  | singleQuoted => cases hKind
  | number => cases hKind
  | word =>
      cases of_word (· != .endOfInput) (by decide) rfl hKind
  | longSign hLong =>
      cases hKind
      cases of_lookup (· != .endOfInput) (by decide) hLong
  | shortSign _ hShort =>
      cases hKind
      cases of_lookup (· != .endOfInput) (by decide) hShort

end Reads

end Lexeme

end ExperimentScript
