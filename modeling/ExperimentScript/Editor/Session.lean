import ExperimentScript.Editor.Range
import ExperimentScript.Parser
import ExperimentScript.Settings

/-
  Editing sessions: the documents that are open, what was
  found out about each, and the answers to requests.

  A document keeps the settings it was opened with until it
  is opened again. Its tokens are kept even if its tree
  cannot be built.

  Which file an identifier of a document spells is up to a
  locator.

  Key definitions include:
    * `ExperimentScript.Editor.Locator`
    * `ExperimentScript.Editor.Document`
    * `ExperimentScript.Editor.Session`
    * `ExperimentScript.Editor.Session.openDocument`
    * `ExperimentScript.Editor.Session.changeDocument`
    * `ExperimentScript.Editor.Session.closeDocument`
    * `ExperimentScript.Editor.Session.symbols`
    * `ExperimentScript.Editor.Session.formatEdit?`
-/

namespace ExperimentScript

namespace Editor

------------------------------------------------------------
-- Documents
------------------------------------------------------------

/- A document with its settings and what was found out about it. -/
structure Document where
  source : Text
  settings : Settings
  tokens : List Token
  script? : Option (Node Span)
  reports : List Report

namespace Document

/- Reads a document. -/
def analyze
    (uri : Text)
    (source : Text)
    (settings : Settings) :
    Document :=
  let failed (error : ScriptError) := [Report.ofError uri error]
  match tokenize source with
  | .error error =>
    ⟨source, settings, [], none, failed (.lexical error)⟩
  | .ok tokens =>
    match parseTokens settings.isStrict tokens with
    | .error error =>
      ⟨source, settings, tokens, none, failed (.syntactic error)⟩
    | .ok script => ⟨source, settings, tokens, some script, []⟩

end Document

------------------------------------------------------------
-- Symbols
------------------------------------------------------------

/- A name that a script assigns to, with the places of both. -/
structure Symbol where
  name : Text
  range : Range
  selection : Range

/- The symbol of an assignment. -/
def Symbol.ofAssignment
    (name : Text)
    (span : Span) :
    Symbol :=
  let range := Range.ofSpan span
  let stop := ⟨range.start.line, range.start.character + name.length⟩
  ⟨name, range, ⟨range.start, stop⟩⟩

/- The assignments of a script that are not nested. -/
def assignments : Node Span → List Symbol
  | .sequence statements _ =>
    statements.filterMap fun
      | .assign name _ span => some (.ofAssignment name span)
      | _ => none
  | _ => []

------------------------------------------------------------
-- Edits
------------------------------------------------------------

/- A range of a document with the text to put there. -/
structure Edit where
  range : Range
  text : Text

/- The range of a whole document, of which only line feeds end lines. -/
def wholeRange (source : Text) : Range :=
  let lines := source.splitOn '\n'
  ⟨⟨0, 0⟩, ⟨lines.length - 1, (lines.getLastD []).length⟩⟩

/- The edit that formats a document, unless it is formatted already. -/
def Document.edit?
    [Room]
    (document : Document)
    (script : Node Span) :
    Except Format.Failure (Option Edit) := do
  let formatted ← document.settings.format script
  if formatted = document.source then
    return none
  else
    return some ⟨wholeRange document.source, formatted⟩

------------------------------------------------------------
-- Sessions
------------------------------------------------------------

/-
  A locator gives the path of a file that an identifier
  spells, or none for an identifier of another kind.
-/
class Locator where
  filePath : Text → Except FileError (Option Text)

/- The open documents by their identifiers. -/
structure Session where
  documents : Fields Document

namespace Session

/- The session in which nothing is open. -/
def empty : Session := ⟨[]⟩

/- The identifiers of the open documents in ascending order. -/
def openUris (session : Session) : List Text :=
  Text.sort (session.documents.map Prod.fst)

variable [Room] [Locator]

/- The settings for a document; only files have a place in the tree. -/
def settingsFor
    (tree : FileTree)
    (uri : Text) :
    Except SettingsError Settings :=
  match Locator.filePath uri with
  | .error error => .error (.file error)
  | .ok none => .ok .default
  | .ok (some spelled) => Settings.around tree spelled

/- Takes a document with a text and settings into the session. -/
def update
    (session : Session)
    (uri : Text)
    (source : Text)
    (settings : Settings) :
    Session × Document :=
  let document := Document.analyze uri source settings
  (⟨session.documents.set uri document⟩, document)

/- Opens a document, for which the settings are read anew. -/
def openDocument
    (session : Session)
    (tree : FileTree)
    (uri : Text)
    (source : Text) :
    Except SettingsError (Session × Document) := do
  return session.update uri source (← settingsFor tree uri)

/-
  Gives a document the last of some texts, or none. A document
  that is open keeps its settings.
-/
def changeDocument
    (session : Session)
    (tree : FileTree)
    (uri : Text)
    (texts : List Text) :
    Except SettingsError (Session × Document) := do
  let settings ←
    match session.documents.get? uri with
    | some document => pure document.settings
    | none => settingsFor tree uri
  return session.update uri (texts.getLastD []) settings

/- Forgets a document. -/
def closeDocument
    (session : Session)
    (uri : Text) :
    Session :=
  ⟨session.documents.filter fun (key, _) => key ≠ uri⟩

/- The script of a document that is open and could be read. -/
def script?
    (session : Session)
    (uri : Text) :
    Option (Document × Node Span) := do
  let document ← session.documents.get? uri
  return (document, ← document.script?)

/- The symbols of a document. -/
def symbols
    (session : Session)
    (uri : Text) :
    List Symbol :=
  match session.script? uri with
  | some (_, script) => assignments script
  | none => []

/- The edit that formats a document, if there is one to make. -/
def formatEdit?
    (session : Session)
    (uri : Text) :
    Except Format.Failure (Option Edit) :=
  match session.script? uri with
  | some (document, script) => document.edit? script
  | none => .ok none

end Session

end Editor

end ExperimentScript
