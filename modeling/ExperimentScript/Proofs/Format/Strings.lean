import ExperimentScript.Proofs.Format.Constant
import ExperimentScript.Proofs.Parser.Forward

/-
  Strings survive however they are quoted.

  A string constant is written in one of four forms: as a bare
  name, in double quotes, as JSON between single quotes, and
  as JSON that is quoted once more. Each form is one token
  with nothing but the end after it, and from that token the
  string is read back, whatever code points it has.

  Key definitions include:
    * `ExperimentScript.Format.StringForm`

  Main declarations:
    * `ExperimentScript.Embedded.read_name`
    * `ExperimentScript.Embedded.read_literal`
    * `ExperimentScript.Embedded.read_json`
    * `ExperimentScript.Format.strings_survive`
-/

namespace ExperimentScript

------------------------------------------------------------
-- A Constant Of One Token
------------------------------------------------------------

namespace Embedded

open Parse

variable {strict : Bool}
variable {token close : Token}
variable {content : Text}

/- The place at the last of two tokens, where the first has been taken. -/
def afterFirst (token close : Token) : Cursor :=
  ⟨token, close, [], []⟩

theorem read_name (hKind : token.kind = .identifier) :
    read strict (.start [token, close]) =
      .ok (.text token.text) (afterFirst token close) := by
  have hStart : (Cursor.start [token, close]).current = token := rfl
  rw [read, maxDepth, value, current_bind_apply, hStart, hKind]
  rfl

/- A string stands for its text where it is not read as JSON. -/
theorem read_literal
    (hKind : token.kind = .string)
    (hLiteral : token.literal = some (.text content)) :
    read false (.start [token, close]) =
      .ok (.text content) (afterFirst token close) := by
  have hString :
      stringValue false maxDepth token = pure (.text content) := by
    simp only [stringValue, hLiteral]
    rfl
  rw [read, maxDepth, value_of_string hKind]
  exact congrArg (· (afterFirst token close)) hString

/- A string that is the JSON of a text stands for that text. -/
theorem read_json
    (hKind : token.kind = .string)
    (hLiteral : token.literal = some (.text (Json.quote content))) :
    read true (.start [token, close]) =
      .ok (.text content) (afterFirst token close) := by
  have hString :
      stringValue true maxDepth token = pure (.text content) := by
    simp only [stringValue, hLiteral, maxDepth, Json.decode_quote]
  rw [read, maxDepth, value_of_string hKind]
  exact congrArg (· (afterFirst token close)) hString

end Embedded

------------------------------------------------------------
-- The Forms Of A String
------------------------------------------------------------

namespace Format

variable {strict : Bool}
variable {content written : Text}

/-
  The forms in which a string is written after an `@`: as a
  name, in double quotes where strings are not read as JSON,
  and where they are as JSON between single quotes or quoted
  once more.
-/
inductive StringForm
    (content : Text) :
    Bool → Text → Prop where
  | bare
      {strict : Bool}
      (hName : isName content = true) :
      StringForm content strict content
  | quoted :
      StringForm content false (Json.quote content)
  | singleQuoted
      (hQuote : CodePoint.char '\'' ∉ Json.quote content) :
      StringForm content true ("'" ++ Json.quote content ++ "'")
  | doubleEncoded :
      StringForm content true (Json.quote (Json.quote content))

/- What is written of a string is one of the forms. -/
theorem form_embeddedText
    (strict : Bool)
    (content : Text) :
    StringForm content strict (embeddedText strict content) := by
  unfold embeddedText
  dsimp only
  split
  · rename_i hName
    exact .bare hName
  · cases strict with
    | false => exact .quoted
    | true =>
        simp only [Bool.not_true, Bool.false_eq_true, if_false]
        split
        · exact .doubleEncoded
        · rename_i hQuote
          exact .singleQuoted (by simpa using hQuote)

/- A form is spelled by one token, from which the string is read. -/
theorem StringForm.spells
    (hForm : StringForm content strict written) :
    ∃ symbol,
      Spells written [symbol] ∧
        ∀ token close : Token, token.symbol = symbol →
          Embedded.read strict (.start [token, close]) =
            .ok (.text content)
              (Embedded.afterFirst token close) := by
  cases hForm with
  | bare hName =>
      refine ⟨_, spells_name hName, fun token close hSymbol => ?_⟩
      have hText : token.text = content :=
        congrArg Symbol.text hSymbol
      rw [← hText]
      exact Embedded.read_name (congrArg Symbol.kind hSymbol)
  | quoted =>
      refine ⟨_, spells_quote content, fun token close hSymbol => ?_⟩
      exact
        Embedded.read_literal (congrArg Symbol.kind hSymbol)
          (congrArg Symbol.literal hSymbol)
  | singleQuoted hQuote =>
      refine
        ⟨_, spells_singleQuoted hQuote, fun token close hSymbol => ?_⟩
      exact
        Embedded.read_json (congrArg Symbol.kind hSymbol)
          (congrArg Symbol.literal hSymbol)
  | doubleEncoded =>
      refine ⟨_, spells_quote _, fun token close hSymbol => ?_⟩
      exact
        Embedded.read_json (congrArg Symbol.kind hSymbol)
          (congrArg Symbol.literal hSymbol)

/- A text that spells one token has that token and the end. -/
theorem exists_tokens_of_spells
    {symbol : Symbol}
    (hSpells : Spells written [symbol]) :
    ∃ token close : Token,
      tokenize written = .ok [token, close] ∧
        token.symbol = symbol ∧
        close.symbol = ⟨.endOfInput, [], none⟩ := by
  have hScans :=
    hSpells false [] (fun hTrue => nomatch hTrue)
      fun _ hMem => nomatch hMem
  rw [List.append_nil] at hScans
  rcases hScans.tokenize with ⟨tokens, hTokens, hSymbols⟩
  rcases List.map_eq_cons_iff.mp hSymbols with
    ⟨token, more, rfl, hSymbol, hMore⟩
  rcases List.map_eq_singleton_iff.mp hMore with ⟨close, rfl, hClose⟩
  exact ⟨token, close, hTokens, hSymbol, hClose⟩

/-
  Every string survives. As a plain constant it is written as
  one string token that stands for it. After an `@` it is
  written in one of the forms, and from each form that it has
  in a way of reading strings it is read back in that way, up
  to the end.
-/
theorem strings_survive (content : Text) :
    (∃ written, constant (.text content) = .ok written ∧
      ∃ token close : Token,
        tokenize written = .ok [token, close] ∧
          token.symbol = ⟨.string, written, some (.text content)⟩ ∧
          close.symbol = ⟨.endOfInput, [], none⟩) ∧
    ∀ strict,
      (∃ written,
        (∀ levels,
          embedded strict levels (.text content) = .ok written) ∧
          StringForm content strict written) ∧
      ∀ written, StringForm content strict written →
        ∃ token close : Token,
          tokenize written = .ok [token, close] ∧
            close.symbol = ⟨.endOfInput, [], none⟩ ∧
            Embedded.read strict (.start [token, close]) =
              .ok (.text content)
                (Embedded.afterFirst token close) := by
  refine
    ⟨⟨_, rfl, exists_tokens_of_spells (spells_quote content)⟩,
      fun strict => ⟨⟨_, ?_, form_embeddedText strict content⟩,
        fun written hForm => ?_⟩⟩
  · intro levels
    rw [embedded]
  · rcases hForm.spells with ⟨symbol, hSpells, hRead⟩
    rcases exists_tokens_of_spells hSpells with
      ⟨token, close, hTokens, hSymbol, hClose⟩
    exact ⟨token, close, hTokens, hClose, hRead token close hSymbol⟩

end Format

end ExperimentScript
