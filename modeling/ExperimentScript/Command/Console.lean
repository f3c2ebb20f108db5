import ExperimentScript.Text.Basic

/-
  Commands, and the console on which they are given.

  A console finds out which command the words of a line ask
  for, and it shows the texts that are written to it. How it
  reads the words and what it leaves out of a text is up to
  it, except for what a run relies on: a text without escape
  characters is shown as it is, and a script that can be
  compiled to a file can be compiled without one.

  Key definitions include:
    * `ExperimentScript.Command`
    * `ExperimentScript.Command.Console`
-/

namespace ExperimentScript

/- What can be asked for on the command line. -/
inductive Command where
  | version
  | compile
      (file : Text)
      (output : Option Text)
      (indent : Option Int)
      (compact : Bool)
  | check (path : Text)
  | format (path : Text) (onlyCheck standardInput : Bool)
  | tokens (file : Text)
  | view (file : Text)
deriving DecidableEq, Repr

namespace Command

/- The console on which commands are given. -/
class Console where
  ofWords? : List Text → Option Command
  shown : Text → Text
  shown_of_no_escape :
    ∀ text : Text, .char '\x1b' ∉ text → shown text = text
  exists_printing :
    ∀ words file output indent compact,
      ofWords? words = some (.compile file output indent compact) →
        ∃ others,
          ofWords? others = some (.compile file none indent compact)

end Command

end ExperimentScript
