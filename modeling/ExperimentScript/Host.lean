import ExperimentScript.Command.Arguments
import ExperimentScript.Editor.Session
import ExperimentScript.Editor.Uri
import ExperimentScript.Text.Terminal

/-
  What the program is run on: how much room there is, what a
  console makes of words and texts, and which files the
  identifiers of an editor spell.

  Key definitions include:
    * `ExperimentScript.Host.room`
    * `ExperimentScript.Host.console`
    * `ExperimentScript.Host.locator`
-/

namespace ExperimentScript

namespace Host

/-
  Room for about a thousand calls, of which formatting and
  reading settings need two for a level and the others one,
  and for a gibibyte of blanks.
-/
instance room : Room where
  formatLevels := 490
  wireLevels := 970
  jsonLevels := 990
  viewLevels := 970
  tomlLevels := 490
  blanks := 1024 * 1024 * 1024

/- A console that is no terminal and shows no control sequences. -/
instance console : Command.Console where
  ofWords? := Command.ofWords?
  shown := Text.withoutControls
  shown_of_no_escape _ := Text.withoutControls_eq_self
  exists_printing _ _ _ _ _ := Command.exists_words

/- A locator for identifiers with the scheme of files. -/
instance locator : Editor.Locator where
  filePath := Editor.filePath

end Host

end ExperimentScript
