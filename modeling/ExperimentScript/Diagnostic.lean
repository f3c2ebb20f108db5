import ExperimentScript.Lexer

/-
  Diagnostics: what is reported about a script, and where.

  Key definitions include:
    * `ExperimentScript.Severity`
    * `ExperimentScript.Diagnostic`
    * `ExperimentScript.SyntaxError`
    * `ExperimentScript.ScriptError`
    * `ExperimentScript.ScriptError.diagnostic`
-/

namespace ExperimentScript

------------------------------------------------------------
-- Diagnostics
------------------------------------------------------------

/- How serious a diagnostic is. -/
inductive Severity where
  | error
  | warning
  | note
deriving DecidableEq, Repr, Inhabited

/- The word for a severity. -/
def Severity.word : Severity → Text
  | .error => "error"
  | .warning => "warning"
  | .note => "note"

/- A place that a diagnostic points to, with a remark. -/
structure Label where
  location : Location
  message : Text
deriving DecidableEq, Repr, Inhabited

/- A message with the places it is about and further notes. -/
structure Diagnostic where
  severity : Severity
  code : Text
  message : Text
  labels : List Label
  notes : List Text
deriving DecidableEq, Repr, Inhabited

namespace Diagnostic

/- The messages of several diagnostics as one. -/
def summary (diagnostics : List Diagnostic) : Text :=
  Text.join "; " (diagnostics.map Diagnostic.message)

/- The first place that any of the diagnostics points to. -/
def location? (diagnostics : List Diagnostic) : Option Location :=
  (diagnostics.findSome? fun diagnostic =>
    diagnostic.labels.head?).map Label.location

end Diagnostic

------------------------------------------------------------
-- Errors Of Scripts
------------------------------------------------------------

/- Why the tokens of a script do not form a tree. -/
inductive SyntaxCause where
  | unexpected
  | unexpectedInLiteral
  | notJson
  | nestedTooDeeply
  | literalNestedTooDeeply
deriving DecidableEq, Repr, Inhabited

/-
  A cause, the token at which reading stopped, and the kinds
  that could have stood there instead.
-/
structure SyntaxError where
  cause : SyntaxCause
  found : Token
  expected : List TokenKind
deriving Inhabited

namespace SyntaxError

/- What a message says about an error. -/
def message (error : SyntaxError) : Text :=
  match error.cause with
  | .unexpected => "unexpected " ++ error.found.shown
  | .unexpectedInLiteral =>
    "unexpected " ++ error.found.shown ++ " in embedded literal"
  | .notJson =>
    "embedded string " ++ error.found.text ++
      " is not a JSON value"
  | .nestedTooDeeply => "expression is nested too deeply"
  | .literalNestedTooDeeply =>
    "embedded literal is nested too deeply"

/- Whether an error was found inside an embedded literal. -/
def inLiteral (error : SyntaxError) : Bool :=
  match error.cause with
  | .unexpected | .nestedTooDeeply => false
  | .unexpectedInLiteral | .notJson
  | .literalNestedTooDeeply => true

/- Whether an error tells only that the limit of nesting was hit. -/
def isDepthLimit (error : SyntaxError) : Bool :=
  match error.cause with
  | .nestedTooDeeply | .literalNestedTooDeeply => true
  | .unexpected | .unexpectedInLiteral | .notJson => false

/- The note that names the kinds that were expected. -/
def notes (error : SyntaxError) : List Text :=
  match error.expected with
  | [] => []
  | kinds =>
    ["expected one of: " ++
      Text.join ", " (Text.sort (kinds.map TokenKind.description))]

end SyntaxError

/- Why a text is no script. -/
inductive ScriptError where
  | lexical (error : LexError)
  | syntactic (error : SyntaxError)
deriving Inhabited

namespace ScriptError

/- The code of an error. -/
def code : ScriptError → Text
  | .lexical _ => "E100"
  | .syntactic error => if error.inLiteral then "E300" else "E200"

/- What a message says about an error. -/
def message : ScriptError → Text
  | .lexical error => error.cause.message
  | .syntactic error => error.message

/- Where an error was found. -/
def span : ScriptError → Span
  | .lexical error => .single error.point
  | .syntactic error => error.found.span

/- The notes that go with an error. -/
def notes : ScriptError → List Text
  | .lexical _ => []
  | .syntactic error => error.notes

/- The diagnostic of an error in a script of a given name. -/
def diagnostic
    (error : ScriptError)
    (file : Text) :
    Diagnostic where
  severity := .error
  code := error.code
  message := error.message
  labels := [⟨.ofSpan file error.span, []⟩]
  notes := error.notes

end ScriptError

end ExperimentScript
