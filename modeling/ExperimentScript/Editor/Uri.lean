import ExperimentScript.FileTree

/-
  The paths of files in the identifiers of documents.

  Key definitions include:
    * `ExperimentScript.Editor.percentDecode`
    * `ExperimentScript.Editor.filePath`
-/

namespace ExperimentScript

namespace Editor

------------------------------------------------------------
-- Percent Encoding
------------------------------------------------------------

/- The character that some bytes encode, if it is one. -/
def character? (bytes : List UInt8) : Option Text := do
  let text ← String.fromUTF8? ⟨bytes.toArray⟩
  if text.length = 1 then some (Text.ofString text) else none

/- Whether some bytes lack only their last ones to encode a character. -/
def isIncomplete (bytes : List UInt8) : Bool :=
  (character? (bytes ++ [0x80])).isSome ||
    (character? (bytes ++ [0x80, 0x80])).isSome

/-
  The first character that some bytes encode, and how many of
  them it takes after the first. An incomplete one and a byte
  that begins none stand as the replacement character.
-/
def firstCharacter (bytes : List UInt8) : Text × Nat :=
  let decoded := [0, 1, 2, 3].findSome? fun count =>
    (character? (bytes.take (count + 1))).map fun text => (text, count)
  let incomplete := [2, 1].find? fun count =>
    isIncomplete (bytes.take (count + 1))
  decoded.getD ([.ofNat 0xFFFD], incomplete.getD 0)

/- The characters that some bytes encode. -/
def decodeBytes : List UInt8 → Text
  | [] => []
  | byte :: rest =>
    let (front, count) := firstCharacter (byte :: rest)
    front ++ decodeBytes (rest.drop count)
termination_by bytes => bytes.length
decreasing_by
  simp only [List.length_drop, List.length_cons]
  omega

/- The bytes of the encoded characters at the front of a text, and the rest. -/
def encodedRun : Text → List UInt8 × Text
  | .char '%' :: a :: b :: rest =>
    match a.hexValue?, b.hexValue? with
    | some high, some low =>
      let (bytes, after) := encodedRun rest
      (UInt8.ofNat (high * 16 + low) :: bytes, after)
    | _, _ => ([], .char '%' :: a :: b :: rest)
  | text => ([], text)

/-
  A text with the characters that stand as percent signs and
  hexadecimal digits. The fuel bounds the length of the text.
-/
def percentDecodeWith : Nat → Text → Text
  | 0, text => text
  | fuel + 1, text =>
    match encodedRun text with
    | (byte :: bytes, rest) =>
      decodeBytes (byte :: bytes) ++ percentDecodeWith fuel rest
    | ([], c :: rest) => c :: percentDecodeWith fuel rest
    | ([], []) => []

/- A text with its percent encoding undone. -/
def percentDecode (text : Text) : Text :=
  percentDecodeWith text.length text

------------------------------------------------------------
-- Files
------------------------------------------------------------

/- The part of a text before the first of some code points. -/
def upTo
    (marks : List CodePoint)
    (text : Text) :
    Text :=
  text.takeWhile fun c => !marks.contains c

/- The authority and the path of an identifier after its scheme. -/
def authorityAndPath (rest : Text) : Text × Text :=
  match rest with
  | .char '/' :: .char '/' :: rest =>
    let authority := upTo [.char '/', .char '?', .char '#'] rest
    (authority,
      upTo [.char '?', .char '#'] (rest.drop authority.length))
  | rest => ([], upTo [.char '?', .char '#'] rest)

/- A path without the stroke before the letter of a drive. -/
def drivePath : Text → Text
  | .char '/' :: letter :: .char ':' :: rest =>
    if letter.isAsciiLetter then
      letter.toLower :: .char ':' :: rest
    else
      .char '/' :: letter :: .char ':' :: rest
  | path => path

/- Whether only one of the two brackets of an address occurs. -/
def hasLoneBracket (authority : Text) : Bool :=
  authority.contains (.char '[') != authority.contains (.char ']')

/- Whether a code point counts nothing in an identifier. -/
def isIgnored (c : CodePoint) : Bool :=
  c == '\t' || c == '\n' || c == '\r'

/-
  The path that an identifier of a file spells. Identifiers
  of other kinds, and those without a path, spell none.
-/
def filePath (uri : Text) : Except FileError (Option Text) :=
  let scheme : Text := "file:"
  if scheme.isPrefixOf uri then
    let rest := (uri.drop scheme.length).filter fun c => !isIgnored c
    let (authority, path) := authorityAndPath rest
    let path := percentDecode path
    if hasLoneBracket authority then .error .badPath
    else if path.isEmpty then .ok none
    else if authority.isEmpty then .ok (some (drivePath path))
    else .ok (some ("//" ++ percentDecode authority ++ path))
  else
    .ok none

end Editor

end ExperimentScript
