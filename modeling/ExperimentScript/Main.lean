import ExperimentScript.Command.Run
import ExperimentScript.Host

/-
  The program. It takes up the files that a command may need,
  carries the command out on them, writes the files that
  changed, and shows what the command has written.

  Taken up are the files below the current directory and below
  the paths among the words, and the settings above them.

  Key definitions include:
    * `ExperimentScript.Program.takeUp`
    * `ExperimentScript.Program.run`
    * `main`
-/

namespace ExperimentScript

namespace Program

------------------------------------------------------------
-- Messages
------------------------------------------------------------

/- What is shown when the words ask for no command. -/
def usage : Text :=
  "usage: planoutc [--version] compile|check|format|tokens|view ..."

/- What is shown about a file that cannot be read or written. -/
def fileMessage : FileError → Text
  | .badPath => "not a path"
  | .nameTooLong => "a path is too long"
  | .notFound => "no such file or directory"
  | .isDirectory => "is a directory"
  | .notDirectory => "not a directory"
  | .notUtf8 => "not a text in UTF-8"
  | .notEncodable => "a text has no encoding in UTF-8"

/- What is shown about a fault. -/
def faultMessage : Command.Fault → Text
  | .file error => fileMessage error
  | .settings (.file error) => "settings: " ++ fileMessage error
  | .settings (.document _) => "settings: not a TOML document"
  | .settings .notATable => "settings: a section is not a table"
  | .format failure =>
    failure.message?.getD "the script cannot be formatted"
  | .wire failure =>
    failure.message?.getD "the script cannot be compiled"
  | .nestedTooDeeply => "the script is nested too deeply"

/- What is shown after all that a command has written. -/
def closing : Command.Ending → Text
  | .success | .failure => []
  | .usage => usage ++ "\n"
  | .fault fault => "error: " ++ faultMessage fault ++ "\n"

------------------------------------------------------------
-- Taking Up Files
------------------------------------------------------------

/- Files with their contents. -/
abbrev Files := List (Path × ByteArray)

/- The files of an entry of a directory. -/
partial def below
    (directory : Path)
    (entry : IO.FS.DirEntry) :
    IO Files := do
  let path := directory ++ [Text.ofString entry.fileName]
  if ← entry.path.isDir then
    let entries ← entry.path.readDir
    return (← entries.toList.mapM (below path)).flatten
  else
    return [(path, ← IO.FS.readBinFile entry.path)]

/- A path as the system spells it. -/
def spelling (path : Path) : String :=
  (("/" ++ Path.toText path).toString?).getD "/"

/- The files at a path and below it. -/
def filesAt (path : Path) : IO Files := do
  let entry : IO.FS.DirEntry :=
    ⟨spelling path.dropLast, (path.getLast?.bind Text.toString?).getD "."⟩
  if ← entry.path.pathExists then
    below path.dropLast entry
  else
    return []

/- The settings in a directory and above it, by its names from the last one up. -/
def settingsAbove : List Text → IO Files
  | [] => filesAt [Settings.fileName]
  | name :: above => do
    let here ← filesAt ((name :: above).reverse ++ [Settings.fileName])
    return here ++ (← settingsAbove above)

/- The file tree that a command with some words may need. -/
def takeUp (words : List Text) : IO FileTree := do
  let spelled := Text.ofString (← IO.currentDir).toString
  let here := Path.names spelled
  let tree : FileTree := ⟨here, []⟩
  let roots := (here :: words.map tree.resolve).eraseDups
  let files ← roots.mapM fun root => do
    return (← filesAt root) ++ (← settingsAbove root.reverse)
  return files.flatten.foldl
    (fun tree (path, bytes) => tree.put path bytes) tree

------------------------------------------------------------
-- Running
------------------------------------------------------------

/- All that can be read from a stream. -/
partial def readAll (stream : IO.FS.Stream) : IO String := do
  let line ← stream.getLine
  if line.isEmpty then
    return ""
  else
    return line ++ (← readAll stream)

/- Carries out a command line and gives the exit code. -/
def run (words : List Text) : IO UInt32 := do
  let tree ← takeUp words
  let input ←
    if words.contains "--stdin" then readAll (← IO.getStdin)
    else pure ""
  let outcome := Command.execute tree words (Text.ofString input)
  for (path, bytes) in outcome.world.tree.changesSince tree do
    IO.FS.writeBinFile (spelling path) bytes
  IO.print (outcome.world.output.toString?.getD "")
  let errors := outcome.world.errors ++ closing outcome.ending
  IO.eprint (errors.toString?.getD "")
  return outcome.ending.code.toUInt32

end Program

end ExperimentScript

/- Carries out the command that the words ask for. -/
def main (arguments : List String) : IO UInt32 :=
  ExperimentScript.Program.run
    (arguments.map ExperimentScript.Text.ofString)
