import ExperimentScript.Command.Console
import ExperimentScript.Diagnostic.Render
import ExperimentScript.Parser
import ExperimentScript.Script.View
import ExperimentScript.Settings

/-
  Carrying out commands on a file tree.

  A run writes to two streams and changes files as it goes.
  What it has written stays when it is stopped, whether by a
  failure it reports or by a fault.

  Key definitions include:
    * `ExperimentScript.Command.Fault`
    * `ExperimentScript.Command.Run`
    * `ExperimentScript.Command.prepare`
    * `ExperimentScript.Command.Outcome`
    * `ExperimentScript.Command.execute`
-/

namespace ExperimentScript

namespace Command

------------------------------------------------------------
-- Runs
------------------------------------------------------------

/- What can go wrong apart from errors in scripts. -/
inductive Fault where
  | file (error : FileError)
  | settings (error : SettingsError)
  | format (failure : Format.Failure)
  | wire (failure : Wire.Failure)
  | nestedTooDeeply

/- Why a run stops before its end. -/
inductive Stop where
  | failure
  | fault (fault : Fault)

/- What a run has done so far. -/
structure World where
  tree : FileTree
  output : Text
  errors : Text

/- A run changes the world and gives a result, or stops. -/
abbrev Run := EStateM Stop World

namespace Run

variable {α ε : Type}

/- Stops with a fault if there is an error. -/
def check
    (fault : ε → Fault) :
    Except ε α → Run α
  | .ok value => return value
  | .error error => throw (.fault (fault error))

variable [Console]

/- Writes a text, which must have an encoding, as it is shown. -/
def print (text : Text) : Run Unit := do
  if text.toString?.isNone then
    throw (.fault (.file .notEncodable))
  modify fun world =>
    { world with output := world.output ++ Console.shown text }

/- Writes a line. -/
def printLine (text : Text) : Run Unit :=
  print (text ++ "\n")

/- Writes a line to the stream for errors, as it is shown. -/
def warn (text : Text) : Run Unit :=
  modify fun world =>
    { world with
      errors := world.errors ++ Console.shown text ++ "\n" }

/- The file tree. -/
def tree : Run FileTree :=
  return (← get).tree

/- Writes a text to a file. -/
def write
    (spelled : Text)
    (text : Text) :
    Run Unit := do
  let (tree, outcome) := (← tree).writeText spelled text
  modify fun world => { world with tree := tree }
  check .file outcome

end Run

------------------------------------------------------------
-- Scripts
------------------------------------------------------------

/- The ending of the names of scripts. -/
def scriptEnding : Text := ".planout"

/- A script by the name it is shown under, and its path. -/
structure ScriptFile where
  name : Text
  path : Path

/- The scripts of a file or of all that is below a directory. -/
def scriptsAt
    (tree : FileTree)
    (spelled : Text)
    (path : Path) :
    List ScriptFile :=
  if tree.isDirectory path then
    let names := Path.names spelled
    let found := (tree.below path).filter (Path.endsIn scriptEnding)
    found.map fun file =>
      let shown := Path.toText (names ++ file.drop path.length)
      ⟨if Path.isAbsolute spelled then "/" ++ shown else shown, file⟩
  else
    [⟨Path.tidy spelled, path⟩]

variable [Room] [Console]

/- The settings that hold for a path. -/
def settingsFor (path : Path) : Run Settings := do
  Run.check .settings (Settings.nearest (← Run.tree) path)

/- The text of a file. -/
def read (path : Path) : Run Text := do
  Run.check .file ((← Run.tree).readText path)

/- Reports an error in a script. -/
def report
    (name : Text)
    (source : Text)
    (error : ScriptError) :
    Run Unit :=
  Run.warn ((error.diagnostic name).render true fun _ => source)

/- The tree of a script. An error in it is reported and ends the run. -/
def parseOrStop
    (settings : Settings)
    (name : Text)
    (source : Text) :
    Run (Node Span) := do
  match parse settings.isStrict source with
  | .ok script => return script
  | .error error =>
    report name source error
    throw .failure

------------------------------------------------------------
-- Commands
------------------------------------------------------------

/- The version of the program. -/
def versionLine : Text := "planoutc, version 0.1.0"

/- Compiles a script to JSON. -/
def compileFile
    (file : Text)
    (path : Path)
    (output : Option Text)
    (indent : Option Int)
    (compact : Bool) :
    Run Unit := do
  let settings ← settingsFor path
  let source ← read path
  let script ← parseOrStop settings file source
  let layout :=
    match compact, indent with
    | true, _ => .ok .oneLine
    | false, some width => Wire.indentedBy width
    | false, none => settings.layout
  let text ← Run.check .wire (settings.dump layout script)
  match output.getD [] with
  | [] => Run.printLine text
  | target =>
    Run.write target (text ++ "\n")
    Run.printLine ("compiled " ++ file ++ " -> " ++ target)

/- Checks some scripts and gives the number of those with an error. -/
def checkFiles : List ScriptFile → Run Nat
  | [] => return 0
  | file :: files => do
    let settings ← settingsFor file.path
    let source ← read file.path
    let failed ←
      match parse settings.isStrict source with
      | .ok _ => pure 0
      | .error error => do
        report file.name source error
        pure 1
    return failed + (← checkFiles files)

/- Checks a file or a directory. -/
def checkPath
    (spelled : Text)
    (path : Path) :
    Run Unit := do
  let files := scriptsAt (← Run.tree) spelled path
  if files.isEmpty then
    Run.warn ("warning: no " ++ scriptEnding ++ " files found")
  else
    let failed ← checkFiles files
    if failed > 0 then
      throw .failure
    Run.printLine
      ("checked " ++ Text.ofNat files.length ++ " file(s), no errors")

/-
  Formats a script in place, or only says that it would, and
  gives whether the command fails because of it.
-/
def formatFile
    (onlyCheck : Bool)
    (file : ScriptFile) :
    Run Bool := do
  let settings ← settingsFor file.path
  let source ← read file.path
  match parse settings.isStrict source with
  | .error error =>
    report file.name source error
    return true
  | .ok script =>
    let formatted ← Run.check .format (settings.format script)
    if formatted = source then
      return false
    else if onlyCheck then
      Run.printLine ("would reformat " ++ file.name)
      return true
    else
      Run.write file.name formatted
      Run.printLine ("formatted " ++ file.name)
      return false

/- Formats some scripts, and gives whether the command fails. -/
def formatFiles
    (onlyCheck : Bool) :
    List ScriptFile → Run Bool
  | [] => return false
  | file :: files => do
    let first ← formatFile onlyCheck file
    let rest ← formatFiles onlyCheck files
    return first || rest

/- Formats a file or a directory. -/
def formatPath
    (spelled : Text)
    (path : Path)
    (onlyCheck : Bool) :
    Run Unit := do
  let files := scriptsAt (← Run.tree) spelled path
  if files.isEmpty then
    Run.warn ("no " ++ scriptEnding ++ " files found")
  else
    if ← formatFiles onlyCheck files then
      throw .failure

/- Formats the standard input, with the settings for a path. -/
def formatInput
    (path : Path)
    (onlyCheck : Bool)
    (input : Text) :
    Run Unit := do
  let settings ← settingsFor path
  let source := input.unifyLineEnds
  let script ← parseOrStop settings "<stdin>" source
  let formatted ← Run.check .format (settings.format script)
  if !onlyCheck then
    Run.print formatted
  else if formatted ≠ source then
    throw .failure

/- The line of a token in a listing. -/
def tokenLine (token : Token) : Text :=
  let start := token.span.first
  Text.ofNat start.line ++ ":" ++ Text.ofNat start.col ++ "\t" ++
    token.kind.label ++ "\t" ++ token.text.quoted

/- Writes some lines. -/
def printLines : List Text → Run Unit
  | [] => return
  | line :: lines => do
    Run.printLine line
    printLines lines

/- Writes the lines of a listing up to where it cannot go on. -/
def printListing : List View.Line → Run Unit
  | [] => return
  | .shown line :: lines => do
    Run.printLine line
    printListing lines
  | .cut :: _ => throw (.fault .nestedTooDeeply)

/- Lists the tokens of a script. -/
def listTokens
    (file : Text)
    (path : Path) :
    Run Unit := do
  let source ← read path
  match tokenize source with
  | .ok found => printLines (found.map tokenLine)
  | .error error =>
    report file source (.lexical error)
    throw .failure

/- Lists the tree of a script. -/
def viewFile
    (file : Text)
    (path : Path) :
    Run Unit := do
  let source ← read path
  let settings ← settingsFor path
  let script ← parseOrStop settings file source
  printListing (View.listing script)

------------------------------------------------------------
-- Performing
------------------------------------------------------------

/- Why a command is not begun. -/
inductive Refusal where
  | usage
  | fault (fault : Fault)

/- The path of what must be there. -/
def existing
    (tree : FileTree)
    (spelled : Text) :
    Except Refusal Path :=
  match Path.fault? spelled with
  | some error => .error (.fault (.file error))
  | none =>
    match tree.locate? spelled with
    | some path => .ok path
    | none => .error .usage

/- The path of a file that must be there. -/
def existingFile
    (tree : FileTree)
    (spelled : Text) :
    Except Refusal Path := do
  let path ← existing tree spelled
  if tree.isFile path then
    return path
  else
    throw .usage

/- Checks that a path can be a file's: it must not be a directory's. -/
def checkOutput
    (tree : FileTree)
    (spelled : Text) :
    Except Refusal Unit :=
  match Path.fault? spelled with
  | some error => .error (.fault (.file error))
  | none =>
    match tree.locate? spelled with
    | some path =>
      if tree.isDirectory path then .error .usage else .ok ()
    | none => .ok ()

/- The run of a command, unless its paths are not what it takes. -/
def prepare
    (tree : FileTree)
    (input : Text) :
    Command → Except Refusal (Run Unit)
  | .version => return Run.printLine versionLine
  | .compile file output indent compact => do
    checkOutput tree (output.getD [])
    let path ← existingFile tree file
    return compileFile file path output indent compact
  | .check spelled => do
    return checkPath spelled (← existing tree spelled)
  | .format spelled onlyCheck standardInput => do
    let path ← existing tree spelled
    if standardInput then
      return formatInput path onlyCheck input
    else
      return formatPath spelled path onlyCheck
  | .tokens file => do
    return listTokens file (← existingFile tree file)
  | .view file => do
    return viewFile file (← existingFile tree file)

/- How a command ended. -/
inductive Ending where
  | success
  | failure
  | usage
  | fault (fault : Fault)

namespace Ending

/- The exit code of an ending. -/
def code : Ending → Nat
  | .success => 0
  | .failure | .fault _ => 1
  | .usage => 2

end Ending

/- How a command ended, and what it has done. -/
structure Outcome where
  ending : Ending
  world : World

/- Carries out a run on a file tree. -/
def complete
    (tree : FileTree)
    (run : Run Unit) :
    Outcome :=
  match run.run ⟨tree, [], []⟩ with
  | .ok _ world => ⟨.success, world⟩
  | .error .failure world => ⟨.failure, world⟩
  | .error (.fault fault) world => ⟨.fault fault, world⟩

/- Carries out a command line on a file tree. -/
def execute
    (tree : FileTree)
    (words : List Text)
    (input : Text) :
    Outcome :=
  match Console.ofWords? words with
  | none => ⟨.usage, ⟨tree, [], []⟩⟩
  | some command =>
    match prepare tree input command with
    | .error .usage => ⟨.usage, ⟨tree, [], []⟩⟩
    | .error (.fault fault) => ⟨.fault fault, ⟨tree, [], []⟩⟩
    | .ok run => complete tree run

end Command

end ExperimentScript
