import ExperimentScript.Proofs.Parser.Passage
import ExperimentScript.Proofs.Script.Fields

/-
  Constants in script notation and back.

  A constant is spelled by tokens that are read as it. Plain
  constants are read as operands. Embedded constants are read
  item by item and field by field, and a text that is not an
  identifier is quoted once more where strings are read as
  JSON.

  Key definitions include:
    * `ExperimentScript.Embedded.IsRead`
    * `ExperimentScript.Format.EmbeddedText`

  Main declarations:
    * `ExperimentScript.Format.embeddedText_of_embedded`
    * `ExperimentScript.Format.exists_of_embeddedItems`
    * `ExperimentScript.Format.exists_of_embeddedFields`
-/

namespace ExperimentScript

------------------------------------------------------------
-- Texts In A Row
------------------------------------------------------------

namespace Text

theorem join_singleton
    (separator text : Text) :
    join separator [text] = text := by
  simp [join]

theorem join_cons_cons
    (separator text next : Text)
    (more : List Text) :
    join separator (text :: next :: more) =
      text ++ (separator ++ join separator (next :: more)) := by
  simp [join]

end Text

/- What follows a step is done when both are. -/
theorem exists_of_bind_eq_ok
    {ε α β : Type}
    {step : Except ε α}
    {next : α → Except ε β}
    {result : β}
    (hResult : step >>= next = .ok result) :
    ∃ first, step = .ok first ∧ next first = .ok result := by
  cases step with
  | error failure => cases hResult
  | ok first => exact ⟨first, rfl, hResult⟩

------------------------------------------------------------
-- Reading Embedded Constants
------------------------------------------------------------

namespace Embedded

open Parse

variable {strict : Bool}
variable {symbols others : List Symbol}

/- Tokens are read as a constant, whatever comes after them. -/
def IsRead
    (strict : Bool)
    (symbols : List Symbol)
    (value : Value) : Prop :=
  ∀ depth,
    (Embedded.value strict depth).Reads symbols (fun _ => true)
      fun found => found = value

/-
  The constant that a token stands for by itself, unless it is
  a string that is read as JSON.
-/
def tokenValue?
    (strict : Bool)
    (symbol : Symbol) :
    Option Value :=
  match symbol.kind with
  | .identifier => some (.text symbol.text)
  | .number => symbol.literal
  | .string => if strict then none else symbol.literal
  | .trueWord => some (.bool true)
  | .falseWord => some (.bool false)
  | .nullWord => some .null
  | _ => none

/- A token is read as the constant it stands for. -/
theorem isRead_of_tokenValue?
    {symbol : Symbol}
    {value : Value}
    (hValue : tokenValue? strict symbol = some value) :
    IsRead strict [symbol] value := by
  intro depth next rest _
  cases depth with
  | zero => exact At.literalTooDeep
  | succ depth =>
      apply At.bind
      apply At.current
      rintro token rfl
      simp only [tokenValue?, Token.symbol] at hValue
      split at hValue
      case h_3 hKind =>
        cases strict with
        | true => cases hValue
        | false =>
            simp only [hKind]
            apply At.bind
            apply At.advance (List.cons_ne_nil _ _)
            intro taken _
            have hLiteral : token.literal = some value := hValue
            simp only [stringValue, hLiteral]
            exact At.pure ⟨rfl, rfl⟩
      case h_7 => cases hValue
      all_goals
        rename_i hKind
        simp only [hKind]
        apply At.bind
        apply At.advance (List.cons_ne_nil _ _)
        intro taken _
        refine At.pure ⟨?_, rfl⟩
        simp_all

/- A string that is read as JSON. -/
theorem isRead_json
    {symbol : Symbol}
    {text : Text}
    {value : Value}
    (hKind : symbol.kind = .string)
    (hText : symbol.literal = some (.text text))
    (hDecode :
      ∀ depth, Json.decode (depth + 1) text = .ok value) :
    IsRead true [symbol] value := by
  intro depth next rest _
  cases depth with
  | zero => exact At.literalTooDeep
  | succ depth =>
      apply At.bind
      apply At.current
      rintro token rfl
      have hString : token.kind = .string := hKind
      have hLiteral : token.literal = some (.text text) := hText
      simp only [hString]
      apply At.bind
      apply At.advance (List.cons_ne_nil _ _)
      intro taken _
      simp only [stringValue, hLiteral, hDecode depth]
      exact At.pure ⟨rfl, rfl⟩

------------------------------------------------------------
-- Lists
------------------------------------------------------------

/- Tokens with the closing bracket are read as the items of a list. -/
def AreRead
    (strict : Bool)
    (symbols : List Symbol)
    (values : List Value) : Prop :=
  ∀ depth fuel, symbols.length < fuel →
    (items (Embedded.value strict depth) fuel).Reads symbols
      (fun _ => true) fun found => found = values

theorem areRead_single
    {value : Value}
    (hValue : IsRead strict symbols value) :
    AreRead strict (symbols ++ [.fixed .rightBracket]) [value] := by
  intro depth fuel hFuel next rest _
  obtain ⟨fuel, rfl⟩ : ∃ less, fuel = less + 1 :=
    Nat.exists_eq_succ_of_ne_zero (by omega)
  simp only [List.append_assoc, List.cons_append,
    List.nil_append]
  apply At.bind
  apply At.of_reads (hValue depth) rfl
  rintro found rfl
  apply At.bind
  apply At.current
  intro token hToken
  have hKind : token.kind = .rightBracket :=
    congrArg Symbol.kind hToken
  simp only [hKind]
  apply At.bind
  apply At.advance (List.cons_ne_nil _ _)
  intro closing _
  exact At.pure ⟨rfl, rfl⟩

theorem areRead_cons
    {value : Value}
    {values : List Value}
    (hValue : IsRead strict symbols value)
    (hMore : AreRead strict others values) :
    AreRead strict (symbols ++ .fixed .comma :: others)
      (value :: values) := by
  intro depth fuel hFuel next rest _
  simp only [List.length_append, List.length_cons] at hFuel
  obtain ⟨fuel, rfl⟩ : ∃ less, fuel = less + 1 :=
    Nat.exists_eq_succ_of_ne_zero (by omega)
  rw [List.append_assoc, List.cons_append]
  apply At.bind
  apply At.of_reads (hValue depth) rfl
  rintro found rfl
  apply At.bind
  apply At.current
  intro token hToken
  have hKind : token.kind = .comma := congrArg Symbol.kind hToken
  simp only [hKind]
  apply At.bind
  apply At.advance (by simp)
  intro comma _
  apply At.bind
  apply At.of_reads (hMore depth fuel (by omega)) rfl
  rintro found rfl
  exact At.pure ⟨rfl, rfl⟩

/- Lists and maps are read one level deeper after the sign that opens them. -/
theorem isRead_opened
    {kind : TokenKind}
    {inside : Parse Value → Parse Value}
    {value : Value}
    (hOpens :
      (kind = .leftBracket ∧ inside = list) ∨
        (kind = .leftBrace ∧ inside = map))
    (hInside :
      ∀ depth,
        (inside (Embedded.value strict depth)).Reads symbols
          (fun _ => true) fun found => found = value) :
    IsRead strict (.fixed kind :: symbols) value := by
  intro depth next rest hNext
  cases depth with
  | zero => exact At.literalTooDeep
  | succ depth =>
      apply At.bind
      apply At.current
      intro token hToken
      have hKind : token.kind = kind := congrArg Symbol.kind hToken
      rcases hOpens with ⟨rfl, rfl⟩ | ⟨rfl, rfl⟩
      all_goals
        simp only [hKind]
        apply At.bind
        apply At.advance (by simp)
        intro opening _
        exact hInside depth next rest hNext

/- Items between brackets are read as a list. -/
theorem isRead_list
    {values : List Value}
    (hFirst :
      ∃ first more, symbols = first :: more ∧
        first.kind ≠ .rightBracket)
    (hItems : AreRead strict symbols values) :
    IsRead strict (.fixed .leftBracket :: symbols)
      (.list values) := by
  rcases hFirst with ⟨first, more, rfl, hOther⟩
  refine isRead_opened (.inl ⟨rfl, rfl⟩) fun depth next rest _ => ?_
  apply At.bind
  apply At.current
  intro item hItem
  have hItemKind : item.kind = first.kind :=
    congrArg Symbol.kind hItem
  split
  · rename_i hClosing
    exact absurd (hItemKind.symm.trans hClosing) hOther
  · apply At.bind_fuel (hItems depth) rfl
    rintro found rfl
    exact At.pure ⟨rfl, rfl⟩

theorem isRead_list_nil :
    IsRead strict
      [.fixed .leftBracket, .fixed .rightBracket] (.list []) := by
  refine isRead_opened (.inl ⟨rfl, rfl⟩) fun depth next rest _ => ?_
  apply At.bind
  apply At.current
  intro closing hClosing
  have hClosingKind : closing.kind = .rightBracket :=
    congrArg Symbol.kind hClosing
  simp only [hClosingKind]
  apply At.bind
  apply At.advance (by simp)
  intro taken _
  exact At.pure ⟨rfl, rfl⟩

------------------------------------------------------------
-- Maps
------------------------------------------------------------

theorem at_expect
    {kind : TokenKind}
    {first : Symbol}
    {more : List Symbol}
    {done : Token → List Symbol → Prop}
    (hKind : first.kind = kind)
    (hMore : more ≠ [])
    (hDone : ∀ token, token.symbol = first → done token more) :
    (Embedded.expect kind).At (first :: more) done := by
  apply At.bind
  apply At.current
  intro token hToken
  have hSame : token.kind = kind :=
    (congrArg Symbol.kind hToken).trans hKind
  rw [if_pos hSame]
  exact At.advance hMore hDone

/-
  Tokens with the closing brace are read as fields after
  others, if no name occurs twice among them.
-/
def FieldsRead
    (strict : Bool)
    (symbols : List Symbol)
    (entries : Fields Value) : Prop :=
  ∀ (before : Fields Value) depth fuel,
    (before.names ++ entries.names).Nodup →
    symbols.length < fuel →
    (fields (Embedded.value strict depth) fuel before).Reads symbols
      (fun _ => true) fun after => after = before ++ entries

/- The name and the value of a field are read before the next sign. -/
theorem at_fields
    {name : Text}
    {value : Value}
    {depth fuel : Nat}
    {before : Fields Value}
    {next : Symbol}
    {rest : List Symbol}
    {done : Fields Value → List Symbol → Prop}
    (hValue : IsRead strict symbols value)
    (hNew : name ∉ before.names)
    (hDone :
      (do
        match (← Parse.current).kind with
        | .comma =>
          let _ ← Parse.advance
          fields (Embedded.value strict depth) fuel
            (before ++ [(name, value)])
        | .rightBrace =>
          let _ ← Parse.advance
          return before ++ [(name, value)]
        | _ => unexpected [.comma, .rightBrace]).At
        (next :: rest) done) :
    (fields (Embedded.value strict depth) (fuel + 1) before).At
      (.name name :: .fixed .colon :: (symbols ++ next :: rest))
      done := by
  apply At.bind
  apply at_expect (Symbol.kind_name _) (by simp)
  intro token hToken
  have hText : token.text = name := congrArg Symbol.text hToken
  apply At.bind
  apply at_expect (Symbol.kind_fixed _) (by simp)
  intro colon _
  apply At.bind
  apply At.of_reads (hValue depth) rfl
  rintro found rfl
  rw [hText, Fields.set_of_not_mem hNew]
  exact hDone

/- A name that is new before fields with distinct names. -/
theorem not_mem_of_nodup
    {name : Text}
    {value : Value}
    {before entries : Fields Value}
    (hNames :
      (before.names ++
        Fields.names ((name, value) :: entries)).Nodup) :
    name ∉ before.names := by
  intro hMem
  exact (List.nodup_append.mp hNames).2.2 name hMem name
    (by simp [Fields.names]) rfl

theorem fieldsRead_single
    {name : Text}
    {value : Value}
    (hValue : IsRead strict symbols value) :
    FieldsRead strict
      (.name name :: .fixed .colon ::
        (symbols ++ [.fixed .rightBrace]))
      [(name, value)] := by
  intro before depth fuel hNames hFuel next rest _
  obtain ⟨fuel, rfl⟩ : ∃ less, fuel = less + 1 :=
    Nat.exists_eq_succ_of_ne_zero (by omega)
  simp only [List.append_assoc, List.cons_append,
    List.nil_append]
  apply at_fields hValue (not_mem_of_nodup hNames)
  apply At.bind
  apply At.current
  intro token hToken
  have hKind : token.kind = .rightBrace :=
    congrArg Symbol.kind hToken
  simp only [hKind]
  apply At.bind
  apply At.advance (by simp)
  intro closing _
  exact At.pure ⟨rfl, rfl⟩

theorem fieldsRead_cons
    {name : Text}
    {value : Value}
    {entries : Fields Value}
    (hValue : IsRead strict symbols value)
    (hMore : FieldsRead strict others entries) :
    FieldsRead strict
      (.name name :: .fixed .colon ::
        (symbols ++ .fixed .comma :: others))
      ((name, value) :: entries) := by
  intro before depth fuel hNames hFuel next rest _
  simp only [List.length_append, List.length_cons] at hFuel
  obtain ⟨fuel, rfl⟩ : ∃ less, fuel = less + 1 :=
    Nat.exists_eq_succ_of_ne_zero (by omega)
  simp only [List.append_assoc, List.cons_append]
  apply at_fields hValue (not_mem_of_nodup hNames)
  apply At.bind
  apply At.current
  intro token hToken
  have hKind : token.kind = .comma := congrArg Symbol.kind hToken
  simp only [hKind]
  apply At.bind
  apply At.advance (by simp)
  intro comma _
  have hAll :
      (Fields.names (before ++ [(name, value)]) ++
        entries.names).Nodup := by
    simpa [Fields.names] using hNames
  apply At.of_reads
    (hMore (before ++ [(name, value)]) depth fuel hAll (by omega))
    rfl
  rintro after rfl
  exact ⟨by simp, rfl⟩

/- Fields between braces are read as a map. -/
theorem isRead_map
    {entries : Fields Value}
    (hFirst : ∃ name more, symbols = .name name :: more)
    (hNames : entries.names.Nodup)
    (hFields : FieldsRead strict symbols entries) :
    IsRead strict (.fixed .leftBrace :: symbols)
      (.map entries) := by
  rcases hFirst with ⟨name, more, rfl⟩
  refine isRead_opened (.inr ⟨rfl, rfl⟩) fun depth next rest _ => ?_
  apply At.bind
  apply At.current
  intro first hFirst
  have hName : first.kind = .identifier :=
    congrArg Symbol.kind hFirst
  simp only [hName]
  apply At.bind_fuel
    (fun fuel => hFields [] depth fuel hNames) rfl
  rintro found rfl
  exact At.pure ⟨rfl, rfl⟩

theorem isRead_map_nil :
    IsRead strict
      [.fixed .leftBrace, .fixed .rightBrace] (.map []) := by
  refine isRead_opened (.inr ⟨rfl, rfl⟩) fun depth next rest _ => ?_
  apply At.bind
  apply At.current
  intro closing hClosing
  have hClosingKind : closing.kind = .rightBrace :=
    congrArg Symbol.kind hClosing
  simp only [hClosingKind]
  apply At.bind
  apply At.advance (by simp)
  intro taken _
  exact At.pure ⟨rfl, rfl⟩

end Embedded

------------------------------------------------------------
-- Plain Constants
------------------------------------------------------------

/- A token other than a name is read as the constant it stands for. -/
theorem Phrase.of_tokenValue?
    {strict : Bool}
    {symbol : Symbol}
    {value : Value}
    (hName : symbol.kind ≠ .identifier)
    (hValue : Embedded.tokenValue? false symbol = some value) :
    Phrase strict 9 none [symbol] (.literal value false ()) := by
  unfold Embedded.tokenValue? at hValue
  split at hValue
  case h_1 hKind => exact absurd hKind hName
  case h_2 hKind => exact literal (.inl hKind) hValue
  case h_3 hKind => exact literal (.inr hKind) hValue
  case h_7 => cases hValue
  all_goals
    rename_i hKind
    cases hValue
    refine word fun reader => ?_
    rw [hKind]
    rfl

namespace Format

open Embedded

/- A scalar other than a text is spelled by a token that stands for it. -/
theorem exists_symbol_of_constant
    {value : Value}
    {text : Text}
    (hText : ∀ content, value ≠ .text content)
    (hBounded : value.isBounded = true)
    (hConstant : constant value = .ok text) :
    ∃ symbol,
      Spells text [symbol] ∧
        symbol.kind ∈
          [.trueWord, .falseWord, .nullWord, .number] ∧
        ∀ strict, tokenValue? strict symbol = some value := by
  cases value with
  | null =>
      cases hConstant
      have hWord :
          Spells (TokenKind.written .nullWord) [.fixed .nullWord] :=
        spells_reserved (by decide)
      exact ⟨_, hWord, by decide, fun _ => rfl⟩
  | bool value =>
      cases value with
      | true =>
          cases hConstant
          have hWord :
              Spells (TokenKind.written .trueWord) [.fixed .trueWord] :=
            spells_reserved (by decide)
          exact ⟨_, hWord, by decide, fun _ => rfl⟩
      | false =>
          cases hConstant
          have hWord :
              Spells (TokenKind.written .falseWord) [.fixed .falseWord] :=
            spells_reserved (by decide)
          exact ⟨_, hWord, by decide, fun _ => rfl⟩
  | int value =>
      cases hConstant
      simp only [Value.isBounded, decide_eq_true_eq] at hBounded
      rcases Text.exists_numeral_ofInt hBounded with
        ⟨numeral, hNumeral, hSign, hValue⟩
      have hSpells := spells_numeral hSign hValue
      rw [hNumeral] at hSpells
      exact ⟨_, hSpells, by simp, fun _ => rfl⟩
  | float value =>
      simp only [Value.isBounded] at hBounded
      simp only [constant, hBounded, if_true] at hConstant
      cases hConstant
      rcases Binary64.exists_numeral_toText hBounded with
        ⟨numeral, hNumeral, hSign, hValue⟩
      have hSpells := spells_numeral hSign hValue
      rw [hNumeral] at hSpells
      exact ⟨_, hSpells, by simp, fun _ => rfl⟩
  | text content => exact absurd rfl (hText content)
  | list items => cases hConstant
  | map fields => cases hConstant

------------------------------------------------------------
-- Embedded Constants
------------------------------------------------------------

/- A text spells tokens that are read as an embedded constant. -/
def EmbeddedText
    (strict : Bool)
    (text : Text)
    (value : Value) : Prop :=
  ∃ symbols,
    Spells text symbols ∧
      IsRead strict symbols value ∧
      ∃ first more, symbols = first :: more ∧
        first.kind ≠ .rightBracket

/- A text after an `@` is read as the text. -/
theorem embeddedText_text
    (strict : Bool)
    (content : Text) :
    EmbeddedText strict (Format.embeddedText strict content)
      (.text content) := by
  unfold Format.embeddedText
  by_cases hName : isName content = true
  · rw [if_pos hName]
    exact
      ⟨_, spells_name hName, isRead_of_tokenValue? rfl,
        _, _, rfl, by simp⟩
  rw [if_neg hName]
  cases strict with
  | false =>
      exact
        ⟨_, spells_quote content, isRead_of_tokenValue? rfl,
          _, _, rfl, by simp⟩
  | true =>
      simp only [Bool.not_true, Bool.false_eq_true, if_false]
      have hDecode :
          ∀ depth, Json.decode (depth + 1) (Json.quote content) =
            .ok (.text content) :=
        fun depth => Json.decode_quote depth content
      by_cases hQuote :
          (Json.quote content).contains (.char '\'') = true
      · rw [if_pos hQuote]
        exact
          ⟨_, spells_quote _, isRead_json rfl rfl hDecode,
            _, _, rfl, by simp⟩
      · rw [if_neg hQuote]
        have hNone : CodePoint.char '\'' ∉ Json.quote content := by
          simpa using hQuote
        exact
          ⟨_, spells_singleQuoted hNone,
            isRead_json rfl rfl hDecode, _, _, rfl, by simp⟩

/- Brackets or braces with nothing between them. -/
theorem spells_empty
    {opening closing : TokenKind}
    (hOpening : opening ∈ Scans.marks)
    (hClosing : closing ∈ Scans.marks)
    (hEnds : closing.endsOperand = true) :
    Spells (opening.written ++ closing.written)
      [.fixed opening, .fixed closing] := by
  refine .of_scans fun ended rest _ => ?_
  have hFirst :
      Scans ended (opening.written ++ (closing.written ++ rest))
        [.fixed opening] opening.endsOperand
        (closing.written ++ rest) :=
    Scans.mark hOpening
  have hSecond :
      Scans opening.endsOperand (closing.written ++ rest)
        [.fixed closing] closing.endsOperand rest :=
    Scans.mark hClosing
  rw [hEnds] at hSecond
  rw [List.append_assoc]
  exact hFirst.trans hSecond

/- A name and a colon before the value of a field. -/
theorem spells_field
    {name text : Text}
    {symbols : List Symbol}
    (hName : isName name = true)
    (hText : Spells text symbols) :
    Spells (name ++ ": " ++ text)
      (.name name :: .fixed .colon :: symbols) := by
  have hSpells :
      Spells
        (name ++
          (TokenKind.written .colon ++ .char ' ' :: text))
        ([.name name] ++ .fixed .colon :: symbols) :=
    Spells.mark_space (by decide) rfl (spells_name hName) hText
  rw [List.append_assoc]
  exact hSpells

/- A comma and a blank between two texts. -/
theorem spells_comma
    {text more : Text}
    {symbols others : List Symbol}
    (hText : Spells text symbols)
    (hMore : Spells more others) :
    Spells (text ++ (", " ++ more))
      (symbols ++ .fixed .comma :: others) := by
  have hSpells :
      Spells
        (text ++ (TokenKind.written .comma ++ .char ' ' :: more))
        (symbols ++ .fixed .comma :: others) :=
    Spells.mark_space (by decide) rfl hText hMore
  exact hSpells

/- What the parts of some items are written as. -/
theorem exists_of_embeddedItems_cons
    {strict : Bool}
    {levels : Nat}
    {item : Value}
    {items : List Value}
    {texts : List Text}
    (hTexts :
      embeddedItems strict levels (item :: items) = .ok texts) :
    ∃ text more,
      embedded strict levels item = .ok text ∧
        embeddedItems strict levels items = .ok more ∧
        texts = text :: more := by
  rw [embeddedItems] at hTexts
  rcases exists_of_bind_eq_ok hTexts with ⟨text, hText, hRest⟩
  rcases exists_of_bind_eq_ok hRest with ⟨more, hMore, hPure⟩
  cases hPure
  exact ⟨text, more, hText, hMore, rfl⟩

/- What the parts of some fields are written as. -/
theorem exists_of_embeddedFields_cons
    {strict : Bool}
    {levels : Nat}
    {name : Text}
    {value : Value}
    {fields : List (Text × Value)}
    {texts : List Text}
    (hTexts :
      embeddedFields strict levels ((name, value) :: fields) =
        .ok texts) :
    isName name = true ∧
      ∃ text more,
        embedded strict levels value = .ok text ∧
          embeddedFields strict levels fields = .ok more ∧
          texts = (name ++ ": " ++ text) :: more := by
  rw [embeddedFields] at hTexts
  cases hName : isName name with
  | false =>
      rw [hName] at hTexts
      cases hTexts
  | true =>
      simp only [hName, Bool.not_true, Bool.false_eq_true,
        if_false] at hTexts
      rcases exists_of_bind_eq_ok hTexts with ⟨text, hText, hRest⟩
      rcases exists_of_bind_eq_ok hRest with ⟨more, hMore, hPure⟩
      cases hPure
      exact ⟨rfl, text, more, hText, hMore, rfl⟩

/- A list that is written is a level above its items. -/
theorem exists_of_embedded_list
    {strict : Bool}
    {levels : Nat}
    {items : List Value}
    {text : Text}
    (hText : embedded strict levels (.list items) = .ok text) :
    ∃ below texts,
      levels = below + 1 ∧
        embeddedItems strict below items = .ok texts ∧
        text = "[" ++ Text.join ", " texts ++ "]" := by
  cases levels with
  | zero => cases hText
  | succ below =>
      rw [embedded] at hText
      rcases exists_of_bind_eq_ok hText with ⟨texts, hTexts, hPure⟩
      cases hPure
      exact ⟨below, texts, rfl, hTexts, rfl⟩

/- A map that is written is a level above its values. -/
theorem exists_of_embedded_map
    {strict : Bool}
    {levels : Nat}
    {fields : List (Text × Value)}
    {text : Text}
    (hText : embedded strict levels (.map fields) = .ok text) :
    ∃ below texts,
      levels = below + 1 ∧
        embeddedFields strict below fields = .ok texts ∧
        text = "\x7b" ++ Text.join ", " texts ++ "\x7d" := by
  cases levels with
  | zero => cases hText
  | succ below =>
      rw [embedded] at hText
      rcases exists_of_bind_eq_ok hText with ⟨texts, hTexts, hPure⟩
      cases hPure
      exact ⟨below, texts, rfl, hTexts, rfl⟩

/- A scalar other than a text is read as it is written. -/
theorem embeddedText_scalar
    {strict : Bool}
    {value : Value}
    {text : Text}
    (hContent : ∀ content, value ≠ .text content)
    (hBounded : value.isBounded = true)
    (hText : constant value = .ok text) :
    EmbeddedText strict text value := by
  rcases exists_symbol_of_constant hContent hBounded hText with
    ⟨symbol, hSpells, hKind, hValue⟩
  refine
    ⟨_, hSpells, isRead_of_tokenValue? (hValue strict),
      symbol, [], rfl, ?_⟩
  intro hBracket
  simp [hBracket] at hKind

mutual

/- What is written of a bounded constant is read as it. -/
theorem embeddedText_of_embedded {strict : Bool} :
    ∀ (value : Value) {levels : Nat} (text : Text),
      value.isBounded = true →
      embedded strict levels value = .ok text →
      EmbeddedText strict text value
  | .null => by
    intro text hBounded hText
    rw [embedded] at hText
    exact embeddedText_scalar (by simp) hBounded hText
  | .bool _ => by
    intro text hBounded hText
    rw [embedded] at hText
    exact embeddedText_scalar (by simp) hBounded hText
  | .int _ => by
    intro text hBounded hText
    rw [embedded] at hText
    exact embeddedText_scalar (by simp) hBounded hText
  | .float _ => by
    intro text hBounded hText
    rw [embedded] at hText
    exact embeddedText_scalar (by simp) hBounded hText
  | .text content => by
    intro text _ hText
    rw [embedded] at hText
    cases hText
    exact embeddedText_text strict content
  | .list [] => by
    intro text _ hText
    rcases exists_of_embedded_list hText with
      ⟨below, texts, rfl, hTexts, rfl⟩
    cases hTexts
    have hEmpty :
        Spells
          (TokenKind.written .leftBracket ++
            TokenKind.written .rightBracket)
          [.fixed .leftBracket, .fixed .rightBracket] :=
      spells_empty (by decide) (by decide) rfl
    exact ⟨_, hEmpty, isRead_list_nil, _, _, rfl, by simp⟩
  | .list (item :: items) => by
    intro text hBounded hText
    rcases exists_of_embedded_list hText with
      ⟨below, texts, rfl, hTexts, rfl⟩
    rcases exists_of_embeddedItems item items hBounded hTexts with
      ⟨symbols, hSpells, hRead, hFirst⟩
    have hWhole :
        Spells
          (TokenKind.written .leftBracket ++
            (Text.join ", " texts ++ "]"))
          (.fixed .leftBracket :: symbols) :=
      hSpells.mark_cons (by decide) rfl
    rw [List.append_assoc]
    exact
      ⟨_, hWhole, isRead_list hFirst hRead, _, _, rfl, by simp⟩
  | .map [] => by
    intro text _ hText
    rcases exists_of_embedded_map hText with
      ⟨below, texts, rfl, hTexts, rfl⟩
    cases hTexts
    have hEmpty :
        Spells
          (TokenKind.written .leftBrace ++
            TokenKind.written .rightBrace)
          [.fixed .leftBrace, .fixed .rightBrace] :=
      spells_empty (by decide) (by decide) rfl
    exact ⟨_, hEmpty, isRead_map_nil, _, _, rfl, by simp⟩
  | .map ((name, value) :: fields) => by
    intro text hBounded hText
    rcases exists_of_embedded_map hText with
      ⟨below, texts, rfl, hTexts, rfl⟩
    simp only [Value.isBounded, Bool.and_eq_true,
      Fields.areDistinct, decide_eq_true_eq] at hBounded
    rcases hBounded with ⟨hNames, hValues⟩
    rcases
        exists_of_embeddedFields name value fields hValues hTexts with
      ⟨symbols, hSpells, hRead, hFirst⟩
    have hWhole :
        Spells
          (TokenKind.written .leftBrace ++
            (Text.join ", " texts ++ "\x7d"))
          (.fixed .leftBrace :: symbols) :=
      hSpells.mark_cons (by decide) rfl
    rw [List.append_assoc]
    exact
      ⟨_, hWhole, isRead_map hFirst hNames hRead,
        _, _, rfl, by simp⟩
termination_by value => sizeOf value

/- The items of a list, read with its closing bracket. -/
theorem exists_of_embeddedItems {strict : Bool} :
    ∀ (item : Value) (items : List Value)
      {levels : Nat} {texts : List Text},
      Value.areBounded (item :: items) = true →
      embeddedItems strict levels (item :: items) = .ok texts →
      ∃ symbols,
        Spells (Text.join ", " texts ++ "]") symbols ∧
          AreRead strict symbols (item :: items) ∧
          ∃ first more, symbols = first :: more ∧
            first.kind ≠ .rightBracket
  | item, items, levels, texts, hBounded, hTexts => by
    simp only [Value.areBounded, Bool.and_eq_true] at hBounded
    rcases exists_of_embeddedItems_cons hTexts with
      ⟨text, more, hText, hMore, rfl⟩
    rcases
        embeddedText_of_embedded item text hBounded.1 hText with
      ⟨symbols, hSpells, hRead, first, tail, rfl, hFirst⟩
    cases items with
    | nil =>
        cases hMore
        have hClosed :
            Spells (text ++ TokenKind.written .rightBracket)
              (first :: tail ++ [.fixed .rightBracket]) :=
          hSpells.append_mark (by decide) rfl
        rw [Text.join_singleton]
        exact
          ⟨_, hClosed, areRead_single hRead, first, _, rfl,
            hFirst⟩
    | cons next items =>
        rcases
            exists_of_embeddedItems next items hBounded.2 hMore with
          ⟨others, hOthers, hAreRead, _⟩
        rcases exists_of_embeddedItems_cons hMore with
          ⟨nextText, moreTexts, _, _, rfl⟩
        have hJoined := spells_comma hSpells hOthers
        simp only [Text.join_cons_cons, List.append_assoc]
          at hJoined ⊢
        exact
          ⟨_, hJoined, areRead_cons hRead hAreRead, first, _, rfl,
            hFirst⟩
termination_by item items => sizeOf (item :: items)

/- The fields of a map, read with its closing brace. -/
theorem exists_of_embeddedFields {strict : Bool} :
    ∀ (name : Text) (value : Value)
      (fields : List (Text × Value))
      {levels : Nat} {texts : List Text},
      Value.haveBounded ((name, value) :: fields) = true →
      embeddedFields strict levels ((name, value) :: fields) =
        .ok texts →
      ∃ symbols,
        Spells (Text.join ", " texts ++ "\x7d") symbols ∧
          FieldsRead strict symbols ((name, value) :: fields) ∧
          ∃ key more, symbols = .name key :: more
  | name, value, [], levels, texts, hBounded, hTexts => by
    simp only [Value.haveBounded, Bool.and_eq_true] at hBounded
    rcases exists_of_embeddedFields_cons hTexts with
      ⟨hName, text, more, hText, hMore, rfl⟩
    cases hMore
    rcases
        embeddedText_of_embedded value text hBounded.1 hText with
      ⟨symbols, hSpells, hRead, _⟩
    have hClosed :
        Spells
          (name ++ ": " ++ text ++ TokenKind.written .rightBrace)
          (.name name :: .fixed .colon :: symbols ++
            [.fixed .rightBrace]) :=
      (spells_field hName hSpells).append_mark (by decide) rfl
    rw [Text.join_singleton]
    exact ⟨_, hClosed, fieldsRead_single hRead, name, _, rfl⟩
  | name, value, (key, entry) :: fields, levels, texts, hBounded,
      hTexts => by
    simp only [Value.haveBounded, Bool.and_eq_true] at hBounded
    rcases exists_of_embeddedFields_cons hTexts with
      ⟨hName, text, more, hText, hMore, rfl⟩
    rcases
        embeddedText_of_embedded value text hBounded.1 hText with
      ⟨symbols, hSpells, hRead, _⟩
    have hField := spells_field hName hSpells
    have hRest : Value.haveBounded ((key, entry) :: fields) = true := by
      simpa [Value.haveBounded] using hBounded.2
    rcases
        exists_of_embeddedFields key entry fields hRest hMore with
      ⟨others, hOthers, hFieldsRead, _⟩
    rcases exists_of_embeddedFields_cons hMore with
      ⟨_, nextText, moreTexts, _, _, rfl⟩
    have hJoined := spells_comma hField hOthers
    simp only [Text.join_cons_cons, List.append_assoc]
      at hJoined ⊢
    exact
      ⟨_, hJoined, fieldsRead_cons hRead hFieldsRead, name, _, rfl⟩
termination_by name value fields => sizeOf ((name, value) :: fields)

end

end Format

end ExperimentScript
