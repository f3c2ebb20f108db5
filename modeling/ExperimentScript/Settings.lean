import ExperimentScript.FileTree
import ExperimentScript.Format.Script
import ExperimentScript.Toml.Document
import ExperimentScript.Wire

/-
  Settings of a directory and all below it, kept in a file of
  a fixed name.

  The values are taken as they stand in the file and are only
  looked at where they are used, so a value of the wrong kind
  is an error no earlier than that.

  Key definitions include:
    * `ExperimentScript.Settings`
    * `ExperimentScript.Settings.load`
    * `ExperimentScript.Settings.find`
    * `ExperimentScript.Settings.locate`
    * `ExperimentScript.Settings.nearest`
    * `ExperimentScript.Settings.around`
    * `ExperimentScript.Settings.format`
    * `ExperimentScript.Settings.dump`
-/

namespace ExperimentScript

------------------------------------------------------------
-- Settings
------------------------------------------------------------

/- The settings for reading, compiling and formatting scripts. -/
structure Settings where
  strict : Toml.Value := .bool true
  outputIndent : Toml.Value := .int 2
  caseKey : Toml.Value := .text Wire.defaultCaseKey
  formatIndent : Toml.Value := .int 4

/- Why settings cannot be read. -/
inductive SettingsError where
  | file (error : FileError)
  | document (error : Toml.Failure)
  | notATable

namespace Settings

/- The settings where there is no file. -/
def default : Settings := {}

/- The name of the file. -/
def fileName : Text := "planout.toml"

/- The fields of a section, which is empty if it is missing. -/
def sectionOf
    (document : Fields Toml.Value)
    (name : Text) :
    Except SettingsError (Fields Toml.Value) :=
  match document.get? name with
  | none => .ok []
  | some (.map fields) => .ok fields
  | some _ => .error .notATable

/- The settings of a document. -/
def ofDocument
    (document : Fields Toml.Value) :
    Except SettingsError Settings := do
  let reading ← sectionOf document "parser"
  let output ← sectionOf document "output"
  let format ← sectionOf document "format"
  return {
    strict :=
      (reading.get? "strict_embedded_scalars").getD default.strict
    outputIndent :=
      (output.get? "indent").getD default.outputIndent
    caseKey :=
      (output.get? "case_condition_key").getD default.caseKey
    formatIndent :=
      (format.get? "indent").getD default.formatIndent }

/- Reads settings from a file. -/
def load
    [Room]
    (tree : FileTree)
    (path : Path) :
    Except SettingsError Settings := do
  let text ← (tree.readRaw path).mapError SettingsError.file
  let document ← (Toml.decode text).mapError SettingsError.document
  ofDocument document

------------------------------------------------------------
-- Finding
------------------------------------------------------------

/-
  The nearest file of the name in a directory or above it,
  given by the names of the directory from the last one up.
-/
def findUp?
    (tree : FileTree) :
    List Text → Option Path
  | [] =>
    if tree.contains [fileName] then some [fileName] else none
  | name :: above =>
    let candidate := (name :: above).reverse ++ [fileName]
    if tree.contains candidate then some candidate
    else findUp? tree above

/-
  The nearest file for a path. What is not a file counts as a
  directory, whether or not it is there. The path is looked up,
  and so is the entry that the search begins with; the entries
  above it have shorter paths.
-/
def find
    (tree : FileTree)
    (path : Path) :
    Except FileError (Option Path) := do
  tree.lookUp path
  let directory := if tree.isFile path then path.dropLast else path
  tree.lookUp (directory ++ [fileName])
  return findUp? tree directory.reverse

/- The file with the settings for a spelled path, or why there is none. -/
def locate
    (tree : FileTree)
    (spelled : Text) :
    Except FileError Path := do
  let path ← tree.startPath spelled
  match ← find tree path with
  | some file => return file
  | none => throw .notFound

/- The settings that hold for a path. -/
def nearest
    [Room]
    (tree : FileTree)
    (path : Path) :
    Except SettingsError Settings := do
  match ← (find tree path).mapError SettingsError.file with
  | some file => load tree file
  | none => return default

/- The settings that hold for a spelled path. -/
def around
    [Room]
    (tree : FileTree)
    (spelled : Text) :
    Except SettingsError Settings := do
  let path ← (tree.startPath spelled).mapError SettingsError.file
  nearest tree path

------------------------------------------------------------
-- Use
------------------------------------------------------------

variable [Room] {α : Type}

/- Whether embedded strings are read as JSON. -/
def isStrict (settings : Settings) : Bool :=
  settings.strict.isTruthy

/-
  The canonical text of a script. Where nothing is written,
  the indent is not looked at.
-/
def format
    (settings : Settings)
    (script : Node α) :
    Except Format.Failure Text :=
  match script, settings.formatIndent.toInt? with
  | _, some indent => Format.script ⟨indent, settings.isStrict⟩ script
  | .sequence [] _, none => .ok []
  | .sequence (_ :: _) _, none => .error .badIndent
  | _, none => .error .notAScript

/-
  The layout of compiled scripts: a text is itself the unit of
  indentation, a number says how many blanks it has.
-/
def layout (settings : Settings) : Except Wire.Failure Json.Layout :=
  match settings.outputIndent with
  | .text unit => .ok (.indented unit)
  | value =>
    match value.toInt? with
    | some width => Wire.indentedBy width
    | none => .error .badIndent

/- The name of the field for guards, as JSON spells it. -/
def caseName (settings : Settings) : Except Wire.Failure Text :=
  match settings.caseKey with
  | .bool true => .ok "true"
  | .bool false => .ok "false"
  | .int value => .ok (Text.ofInt value)
  | .float value =>
    if value.isFinite then .ok value.toText else .error .notFinite
  | .text name => .ok name
  | .moment _ => .error .unwritableKey
  | .list _ | .map _ => .error .badCaseKey

/-
  The JSON text of a script. A name for guards that cannot be
  used is an error only where there is a guard to name. One
  that no field can have is found when the wire form is made,
  one that JSON cannot write when the form is written.
-/
def dump
    (settings : Settings)
    (layout : Except Wire.Failure Json.Layout)
    (script : Node α) :
    Except Wire.Failure Text := do
  match settings.caseName with
  | .ok name => Wire.dump layout name script
  | .error error =>
    if script.hasCase then
      if error matches .badCaseKey then
        throw error
      let _ ← Wire.encode Wire.defaultCaseKey script
      let _ ← layout
      throw error
    Wire.dump layout Wire.defaultCaseKey script

end Settings

end ExperimentScript
