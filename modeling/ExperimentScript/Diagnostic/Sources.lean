import ExperimentScript.Diagnostic.Render
import ExperimentScript.FileTree
import ExperimentScript.Text.Margin
import ExperimentScript.Value

/-
  Rendering diagnostics of several scripts, whose texts are
  given by name or else read from a file tree. The places
  may be any, so that the carets may have no room.

  Key definitions include:
    * `ExperimentScript.Diagnostic.RenderError`
    * `ExperimentScript.Diagnostic.renderAll`
-/

namespace ExperimentScript

namespace Diagnostic

variable [Room]

/- Why diagnostics cannot be rendered. -/
inductive RenderError where
  | file (error : FileError)
  | width (error : WidthError)

/- The locations that diagnostics point to. -/
def locations (diagnostics : List Diagnostic) : List Location :=
  diagnostics.flatMap fun diagnostic =>
    diagnostic.labels.map Label.location

/- Checks that the carets of a location have room under its line. -/
def checkCarets
    (source : Text)
    (location : Location) :
    Except WidthError Unit :=
  match lineAt? source location.firstLine with
  | none => .ok ()
  | some _ => do
    Text.checkWidth (caretOffset location)
    Text.checkWidth (caretCount location)

/- The text of a script by its name. -/
def sourceText
    (tree : FileTree)
    (known : Fields Text)
    (name : Text) :
    Except FileError Text :=
  match known.get? name with
  | some text => .ok text
  | none => tree.sourceText name

/- The texts of the scripts of some locations, added to those given. -/
def gather
    (tree : FileTree) :
    Fields Text → List Location → Except RenderError (Fields Text)
  | known, [] => .ok known
  | known, location :: rest => do
    let text ←
      (sourceText tree known location.file).mapError RenderError.file
    (checkCarets text location).mapError RenderError.width
    gather tree (known.set location.file text) rest

/- The blocks of some diagnostics. -/
def renderAll
    (color : Bool)
    (sources : Fields Text)
    (tree : FileTree)
    (diagnostics : List Diagnostic) :
    Except RenderError (List Text) := do
  let texts ← gather tree sources (locations diagnostics)
  let sourceOf := fun name => (texts.get? name).getD []
  return diagnostics.map (render color sourceOf)

end Diagnostic

end ExperimentScript
