/-
  What a machine has room for.

  Whatever follows a tree down to its leaves has calls that
  wait on every level, and a machine has room for so many of
  them only. It has room for so many blanks in a row, too.
  How much room there is depends on the machine, and nothing
  that is proven depends on it.

  Key definitions include:
    * `ExperimentScript.Room`
-/

namespace ExperimentScript

/-
  How many levels deep a tree may nest to be formatted, to be
  given its wire form, to be written as JSON, to be listed and
  to be read from a TOML document, and how many blanks may
  stand in a row.
-/
class Room where
  formatLevels : Nat
  wireLevels : Nat
  jsonLevels : Nat
  viewLevels : Nat
  tomlLevels : Nat
  blanks : Nat

end ExperimentScript
