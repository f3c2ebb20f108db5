import ExperimentScript.Text.Printable

/-
  Texts quoted for display in messages and listings.

  The quote is `'`, or `"` when only that avoids an escape.
  Code points that cannot be shown are written as escapes
  with two, four or eight hexadecimal digits.

  Key definitions include:
    * `ExperimentScript.Text.quoted`
-/

------------------------------------------------------------
-- Quoting
------------------------------------------------------------

namespace ExperimentScript

namespace Text

/- The quote that encloses a displayed text. -/
def displayQuote (text : Text) : CodePoint :=
  if text.contains (.char '\'') && !text.contains (.char '"') then
    .char '"'
  else
    .char '\''

/- One code point as it stands between display quotes. -/
def displayed
    (quote : CodePoint)
    (c : CodePoint) :
    Text :=
  if c = quote ∨ c = '\\' then [.char '\\', c]
  else if c = '\n' then "\\n"
  else if c = '\r' then "\\r"
  else if c = '\t' then "\\t"
  else if c.isPrintable then [c]
  else if c.toNat < 0x100 then ofString "\\x" ++ hex 2 c.toNat
  else if c.toNat < 0x10000 then ofString "\\u" ++ hex 4 c.toNat
  else ofString "\\U" ++ hex 8 c.toNat

/- The text between quotes, with escapes where they are needed. -/
def quoted (text : Text) : Text :=
  let quote := displayQuote text
  quote :: text.flatMap (displayed quote) ++ [quote]

end Text

end ExperimentScript
