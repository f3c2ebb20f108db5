import ExperimentScript.Text.Basic

/-
  Texts as JSON strings.

  Key definitions include:
    * `ExperimentScript.Json.quote`
    * `ExperimentScript.Json.quoteAscii`
-/

namespace ExperimentScript

namespace Json

------------------------------------------------------------
-- Escapes
------------------------------------------------------------

/- The letter of the escape of a code point that has a short one. -/
def shortEscape? (c : CodePoint) : Option Char :=
  match c with
  | .char '"' => some '"'
  | .char '\\' => some '\\'
  | .char '\n' => some 'n'
  | .char '\r' => some 'r'
  | .char '\t' => some 't'
  | .char '\x0c' => some 'f'
  | .char '\x08' => some 'b'
  | _ => none

/- An escape with four hexadecimal digits. -/
def longEscape (unit : Nat) : Text :=
  "\\u" ++ Text.hex 4 unit

/-
  The escapes of a code point by its units of sixteen bits;
  a code point beyond them takes a pair of surrogates.
-/
def unitEscapes (c : CodePoint) : Text :=
  let n := c.toNat
  if n < 0x10000 then longEscape n
  else
    longEscape (0xD800 + (n - 0x10000) / 0x400) ++
      longEscape (0xDC00 + (n - 0x10000) % 0x400)

/- A code point inside a string, escaped if it need not stand plain. -/
def escaped
    (plain : CodePoint → Bool)
    (c : CodePoint) :
    Text :=
  match shortEscape? c with
  | some letter => [.char '\\', .char letter]
  | none => if plain c then [c] else unitEscapes c

/- A string whose code points stand plain where a condition allows it. -/
def quoteWith
    (plain : CodePoint → Bool)
    (text : Text) :
    Text :=
  "\"" ++ text.flatMap (escaped plain) ++ "\""

------------------------------------------------------------
-- Strings
------------------------------------------------------------

/- A string in which only control characters are escaped. -/
def quote (text : Text) : Text :=
  quoteWith (fun c => 0x20 ≤ c.toNat) text

/- A string in which only printable ASCII characters stand plain. -/
def quoteAscii (text : Text) : Text :=
  quoteWith (fun c => 0x20 ≤ c.toNat ∧ c.toNat < 0x7F) text

end Json

end ExperimentScript
