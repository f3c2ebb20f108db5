import ExperimentScript.Command.Console
import ExperimentScript.Text.Integer

/-
  The words of a command line.

  Options may stand between the other words; a long option
  takes its value from the next word or after an equals
  sign, a short one from the rest of its word or the next
  one. After two strokes no word is an option.

  Key definitions include:
    * `ExperimentScript.Arguments.Given`
    * `ExperimentScript.Arguments.split?`
    * `ExperimentScript.Command.ofWords?`

  Main declarations:
    * `ExperimentScript.Command.exists_words`
-/

namespace ExperimentScript

namespace Arguments

------------------------------------------------------------
-- Options
------------------------------------------------------------

/-
  An option with its long name. One that takes a value may
  have a short name of one letter.
-/
structure OptionName where
  long : Text
  letter : Option CodePoint
  takesValue : Bool

/- An option without a value. -/
def flag (long : Text) : OptionName :=
  ⟨long, none, false⟩

/- What a word is. -/
inductive Word where
  | plain
  | flag (long : Text)
  | withValue (long value : Text)
  | beforeValue (long : Text)
  | unknown

/- What a word is that begins with a stroke and a further code point. -/
def classifyOption
    (options : List OptionName)
    (word : Text)
    (second : CodePoint)
    (rest : Text) :
    Word :=
  let (name, value?) :=
    match word.cut? '=' with
    | some (name, value) => (name, some value)
    | none => (word, none)
  match options.find? (fun option => option.long = name) with
  | some option =>
    match option.takesValue, value? with
    | true, some value => .withValue option.long value
    | true, none => .beforeValue option.long
    | false, none => .flag option.long
    | false, some _ => .unknown
  | none =>
    match options.find? (fun option => option.letter = some second) with
    | some option =>
      if rest.isEmpty then .beforeValue option.long
      else .withValue option.long rest
    | none => .unknown

/- What a word is. -/
def classify
    (options : List OptionName)
    (word : Text) :
    Word :=
  match word with
  | .char '-' :: second :: rest =>
    classifyOption options word second rest
  | _ => .plain

------------------------------------------------------------
-- Splitting
------------------------------------------------------------

/- The options that were given, by their long names, and the other words. -/
structure Given where
  options : List (Text × Text)
  words : List Text

namespace Given

/- The last value given for an option. -/
def value?
    (given : Given)
    (long : Text) :
    Option Text :=
  given.options.reverse.lookup long

/- Whether an option was given. -/
def has
    (given : Given)
    (long : Text) :
    Bool :=
  (given.value? long).isSome

/- An option before all the others. -/
def withOption
    (long value : Text)
    (given : Given) :
    Given :=
  { given with options := (long, value) :: given.options }

/- A word before all the others. -/
def withWord
    (word : Text)
    (given : Given) :
    Given :=
  { given with words := word :: given.words }

end Given

/- Splits the words of a command line, unless an option is unknown or lacks its value. -/
def split?
    (options : List OptionName) :
    List Text → Option Given
  | [] => some ⟨[], []⟩
  | word :: rest =>
    if word = "--" then some ⟨[], rest⟩
    else
      match classify options word with
      | .plain => (split? options rest).map (Given.withWord word)
      | .flag long => (split? options rest).map (Given.withOption long [])
      | .withValue long value =>
        (split? options rest).map (Given.withOption long value)
      | .beforeValue long =>
        match rest with
        | [] => none
        | value :: more =>
          (split? options more).map (Given.withOption long value)
      | .unknown => none

end Arguments

------------------------------------------------------------
-- Commands
------------------------------------------------------------

namespace Command

open Arguments

/- The options of compiling. -/
def compileOptions : List OptionName :=
  [⟨"--output", some 'o', true⟩, ⟨"--indent", none, true⟩,
   Arguments.flag "--compact"]

/- The options of formatting. -/
def formatOptions : List OptionName :=
  [Arguments.flag "--check", Arguments.flag "--stdin"]

/- Compiling one file. -/
def compileOf? (words : List Text) : Option Command := do
  let given ← split? compileOptions words
  let [file] := given.words
    | none
  let indent ←
    match given.value? "--indent" with
    | none => some none
    | some spelled => spelled.toInt?.map some
  return .compile file (given.value? "--output") indent
    (given.has "--compact")

/- The path given, or the current directory. -/
def pathOf? : List Text → Option Text
  | [] => some "."
  | [path] => some path
  | _ => none

/- Formatting a file, a directory or the standard input. -/
def formatOf? (words : List Text) : Option Command := do
  let given ← split? formatOptions words
  let path ← pathOf? given.words
  return .format path (given.has "--check") (given.has "--stdin")

/- Checking a file or a directory. -/
def checkOf? (words : List Text) : Option Command := do
  let given ← split? [] words
  return .check (← pathOf? given.words)

/- A command on one file. -/
def fileOf?
    (command : Text → Command)
    (words : List Text) :
    Option Command := do
  let given ← split? [] words
  let [file] := given.words
    | none
  return command file

/- The names of the commands. -/
def names : List Text :=
  ["compile", "check", "format", "tokens", "view"]

/- The command of a name with the words after it. -/
def named?
    (name : Text)
    (words : List Text) :
    Option Command :=
  if name = "compile" then compileOf? words
  else if name = "check" then checkOf? words
  else if name = "format" then formatOf? words
  else if name = "tokens" then fileOf? .tokens words
  else if name = "view" then fileOf? .view words
  else none

/- The options that may stand before the name of a command. -/
def leadingOptions : List OptionName :=
  [Arguments.flag "--version", Arguments.flag "--help"]

/-
  The options before the name of a command: the first of
  them, and the words from the name on.
-/
def leading? : List Text → Option (Option Text × List Text)
  | [] => some (none, [])
  | word :: rest =>
    if word = "--" then some (none, rest)
    else
      match classify leadingOptions word with
      | .plain => some (none, word :: rest)
      | .flag long => (leading? rest).map fun (_, words) => (some long, words)
      | _ => none

/- What an option in place of a command asks for; help is not a command. -/
def asked? (long : Text) : Option Command :=
  if long = "--version" then some .version else none

/- Whether a word is the name of a command. -/
def isName (word : Text) : Bool :=
  names.contains word

/-
  The command that the words of a command line ask for. A word
  in the place of a name that is none is read as an option
  once more, even after two strokes.
-/
def ofWords? (words : List Text) : Option Command := do
  match ← leading? words with
  | (some long, _) => asked? long
  | (none, []) => none
  | (none, name :: rest) =>
    if isName name then
      named? name rest
    else
      let (long?, _) ← leading? (name :: rest)
      asked? (← long?)

------------------------------------------------------------
-- Words
------------------------------------------------------------

section Words

variable {words : List Text}
variable {file : Text}
variable {output : Option Text}
variable {indent : Option Int}
variable {compact : Bool}

/- An indent that is asked for has been spelled. -/
theorem exists_spelled_of_compileOf?
    (hWords :
      compileOf? words = some (.compile file output indent compact)) :
    ∀ width ∈ indent, ∃ spelled : Text, spelled.toInt? = some width := by
  rintro width rfl
  rcases Option.bind_eq_some_iff.mp hWords with ⟨given, -, hGiven⟩
  dsimp only at hGiven
  split at hGiven
  · split at hGiven
    · cases hGiven
    · rename_i spelled _
      rcases Option.bind_eq_some_iff.mp hGiven with
        ⟨found, hFound, hCommand⟩
      cases hCommand
      rcases Option.map_eq_some_iff.mp hFound with
        ⟨number, hNumber, hSome⟩
      cases hSome
      exact ⟨spelled, hNumber⟩
  · cases hGiven

/- Only the words after one name ask for compiling. -/
theorem compileOf?_of_named?
    {name : Text}
    (hNamed :
      named? name words = some (.compile file output indent compact)) :
    compileOf? words = some (.compile file output indent compact) := by
  have hFile {command : Text → Command}
      (hFound :
        fileOf? command words =
          some (.compile file output indent compact)) :
      ∃ path, command path = .compile file output indent compact := by
    rcases Option.bind_eq_some_iff.mp hFound with ⟨given, -, hGiven⟩
    split at hGiven
    · exact ⟨_, Option.some.inj hGiven⟩
    · cases hGiven
  unfold named? at hNamed
  split at hNamed
  · exact hNamed
  · exfalso
    split at hNamed
    · rcases Option.bind_eq_some_iff.mp hNamed with ⟨given, -, hGiven⟩
      rcases Option.bind_eq_some_iff.mp hGiven with ⟨path, -, hCheck⟩
      cases hCheck
    · split at hNamed
      · rcases Option.bind_eq_some_iff.mp hNamed with ⟨given, -, hGiven⟩
        rcases Option.bind_eq_some_iff.mp hGiven with ⟨path, -, hFormat⟩
        cases hFormat
      · split at hNamed
        · rcases hFile hNamed with ⟨path, ⟨⟩⟩
        · split at hNamed
          · rcases hFile hNamed with ⟨path, ⟨⟩⟩
          · cases hNamed

theorem exists_compileOf?
    (hWords :
      ofWords? words = some (.compile file output indent compact)) :
    ∃ rest,
      compileOf? rest = some (.compile file output indent compact) := by
  have hAsked (long : Text) :
      asked? long ≠ some (.compile file output indent compact) := by
    unfold asked?
    split <;> exact nofun
  unfold ofWords? at hWords
  rcases Option.bind_eq_some_iff.mp hWords with ⟨leading, -, hRest⟩
  dsimp only at hRest
  split at hRest
  · exact absurd hRest (hAsked _)
  · cases hRest
  · rename_i name rest
    split at hRest
    · exact ⟨rest, compileOf?_of_named? hRest⟩
    · rcases Option.bind_eq_some_iff.mp hRest with ⟨again, -, hAgain⟩
      rcases Option.bind_eq_some_iff.mp hAgain with ⟨long, -, hLong⟩
      exact absurd hLong (hAsked long)

/- What is asked for can be asked for without an output. -/
theorem exists_words
    (hWords :
      ofWords? words = some (.compile file output indent compact)) :
    ∃ others,
      ofWords? others = some (.compile file none indent compact) := by
  rcases exists_compileOf? hWords with ⟨rest, hRest⟩
  cases indent with
  | none =>
      cases compact with
      | false => exact ⟨["compile", "--", file], rfl⟩
      | true => exact ⟨["compile", "--compact", "--", file], rfl⟩
  | some width =>
      rcases exists_spelled_of_compileOf? hRest width rfl with
        ⟨spelled, hSpelled⟩
      have hNumber (compact : Bool) :
          (spelled.toInt?.map some).bind (fun indent =>
              some (.compile file none indent compact)) =
            some (Command.compile file none (some width) compact) := by
        rw [hSpelled]
        rfl
      cases compact with
      | false =>
          refine ⟨["compile", "--indent", spelled, "--", file], ?_⟩
          exact hNumber false
      | true =>
          refine
            ⟨["compile", "--indent", spelled, "--compact", "--", file],
              ?_⟩
          exact hNumber true

end Words

end Command

end ExperimentScript
