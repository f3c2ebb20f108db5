import ExperimentScript.Command.Run

/-
  What a run of a command does from a given world.

  `Run.Ends` says of a run that it ends with a result and a
  world of which one thing holds, or stops in a world of
  which another does. Whatever was written before a run stops
  is still there, so both speak of the world. Every basic
  step has one rule that opens such a statement.

  Key definitions include:
    * `ExperimentScript.Command.Run.Ends`

  Main declarations:
    * `ExperimentScript.Command.Run.ends_bind`
    * `ExperimentScript.Command.Run.ends_write`
    * `ExperimentScript.Command.complete_cases`
-/

namespace ExperimentScript

namespace FileTree

/-
  A text is not written where there can be no file. Otherwise
  the file has the text afterwards, or nothing if the text
  has no encoding.
-/
theorem writeText_cases
    (tree : FileTree)
    (spelled text : Text) :
    (∃ error, tree.writeText spelled text = (tree, .error error)) ∨
      ∃ path,
        tree.target spelled = .ok path ∧
          ((∃ string,
            text.toString? = some string ∧
              tree.writeText spelled text =
                (tree.put path string.toUTF8, .ok ())) ∨
            (text.toString? = none ∧
              tree.writeText spelled text =
                (tree.put path .empty, .error .notEncodable))) := by
  rw [writeText]
  cases hTarget : tree.target spelled with
  | error error => exact .inl ⟨error, rfl⟩
  | ok path =>
      refine .inr ⟨path, rfl, ?_⟩
      cases hString : text.toString? with
      | none => exact .inr ⟨rfl, rfl⟩
      | some string => exact .inl ⟨string, rfl, rfl⟩

end FileTree

namespace Command

namespace Run

variable {α β ε : Type}

------------------------------------------------------------
-- Ends Of Runs
------------------------------------------------------------

/-
  From a world a run ends in a way that `done` allows, or
  stops in a way that `stopped` allows.
-/
def Ends
    (run : Run α)
    (world : World)
    (done : α → World → Prop)
    (stopped : Stop → World → Prop) : Prop :=
  match run world with
  | .ok result after => done result after
  | .error stop after => stopped stop after

variable {world : World}
variable {stopped : Stop → World → Prop}

/- What is allowed may be widened. -/
theorem Ends.mono
    {run : Run α}
    {done wider : α → World → Prop}
    {stoppedWider : Stop → World → Prop}
    (hEnds : run.Ends world done stopped)
    (hDone : ∀ result after, done result after → wider result after)
    (hStopped :
      ∀ stop after, stopped stop after → stoppedWider stop after) :
    run.Ends world wider stoppedWider := by
  unfold Ends at *
  cases hRun : run world with
  | ok result after =>
      rw [hRun] at hEnds
      exact hDone result after hEnds
  | error stop after =>
      rw [hRun] at hEnds
      exact hStopped stop after hEnds

------------------------------------------------------------
-- Rules Of The Basic Steps
------------------------------------------------------------

section Rules

variable (done : α → World → Prop)

@[simp] theorem ends_pure (result : α) :
    Ends (pure result) world done stopped ↔ done result world :=
  Iff.rfl

@[simp] theorem ends_bind
    (first : Run β)
    (second : β → Run α) :
    Ends (first >>= second) world done stopped ↔
      first.Ends world
        (fun result after => (second result).Ends after done stopped)
        stopped := by
  simp only [Ends, bind, EStateM.bind]
  cases first world <;> rfl

@[simp] theorem ends_throw (stop : Stop) :
    Ends (throw stop) world done stopped ↔ stopped stop world :=
  Iff.rfl

@[simp] theorem ends_check
    (fault : ε → Fault)
    (outcome : Except ε α) :
    Ends (check fault outcome) world done stopped ↔
      (∀ value, outcome = .ok value → done value world) ∧
        ∀ error,
          outcome = .error error →
            stopped (.fault (fault error)) world := by
  cases outcome <;> simp [check]

end Rules

@[simp] theorem ends_tree (done : FileTree → World → Prop) :
    Ends tree world done stopped ↔ done world.tree world := Iff.rfl

section Console

variable [Console]

@[simp] theorem ends_warn
    (text : Text)
    (done : Unit → World → Prop) :
    Ends (warn text) world done stopped ↔
      done ()
        { world with
          errors := world.errors ++ Console.shown text ++ "\n" } :=
  Iff.rfl

@[simp] theorem ends_print
    (text : Text)
    (done : Unit → World → Prop) :
    Ends (print text) world done stopped ↔
      if text.toString?.isNone then
        stopped (.fault (.file .notEncodable)) world
      else
        done ()
          { world with
            output := world.output ++ Console.shown text } := by
  cases hString : text.toString? with
  | none =>
      simp only [print, hString]
      rfl
  | some string =>
      simp only [print, hString]
      rfl

end Console

/- Writing leaves a tree, whether or not the text has an encoding. -/
@[simp] theorem ends_write
    (spelled text : Text)
    (done : Unit → World → Prop) :
    Ends (write spelled text) world done stopped ↔
      (∀ value,
        (world.tree.writeText spelled text).2 = .ok value →
          done value
            { world with
              tree := (world.tree.writeText spelled text).1 }) ∧
        ∀ error,
          (world.tree.writeText spelled text).2 = .error error →
            stopped (.fault (.file error))
              { world with
                tree := (world.tree.writeText spelled text).1 } := by
  rw [write, ends_bind, ends_tree]
  rcases hWritten : world.tree.writeText spelled text with
    ⟨written, outcome⟩
  rw [ends_bind]
  exact ends_check done .file outcome

/- A step that is done goes on in the world it leaves. -/
theorem bind_of_ok
    {first : Run α}
    {second : α → Run β}
    {after : World}
    {result : α}
    (hFirst : first world = .ok result after) :
    (first >>= second) world = second result after := by
  simp only [bind, EStateM.bind, hFirst]

theorem tree_apply : tree world = .ok world.tree world := rfl

end Run

------------------------------------------------------------
-- Commands
------------------------------------------------------------

namespace Ending

theorem code_eq_zero
    {ending : Ending}
    (hCode : ending.code = 0) :
    ending = .success := by
  cases ending <;> first | rfl | cases hCode

end Ending

/- What a run ends or stops with is how its command ends. -/
theorem complete_cases
    {tree : FileTree}
    {run : Run Unit}
    {done : Unit → World → Prop}
    {stopped : Stop → World → Prop}
    (hEnds : run.Ends ⟨tree, [], []⟩ done stopped) :
    ((complete tree run).ending = .success ∧
        done () (complete tree run).world) ∨
      ((complete tree run).ending = .failure ∧
        stopped .failure (complete tree run).world) ∨
      ∃ fault,
        (complete tree run).ending = .fault fault ∧
          stopped (.fault fault) (complete tree run).world := by
  rw [complete, EStateM.run]
  unfold Run.Ends at hEnds
  cases hRun : run ⟨tree, [], []⟩ with
  | ok result after =>
      rw [hRun] at hEnds
      exact .inl ⟨rfl, hEnds⟩
  | error stop after =>
      rw [hRun] at hEnds
      cases stop with
      | failure => exact .inr (.inl ⟨rfl, hEnds⟩)
      | fault fault => exact .inr (.inr ⟨fault, rfl, hEnds⟩)

/-
  A run ends with what its command has done, or it stops and
  the command fails.
-/
theorem complete_code_cases
    {tree : FileTree}
    {run : Run Unit}
    {done : Unit → World → Prop}
    {stopped : Stop → World → Prop}
    (hEnds : run.Ends ⟨tree, [], []⟩ done stopped) :
    ((complete tree run).ending.code = 0 ∧
        done () (complete tree run).world) ∨
      ((complete tree run).ending.code ≠ 0 ∧
        ∃ stop, stopped stop (complete tree run).world) := by
  rcases complete_cases hEnds with
    ⟨hEnding, hDone⟩ | ⟨hEnding, hStopped⟩ |
      ⟨fault, hEnding, hStopped⟩
  · exact .inl ⟨by rw [hEnding]; rfl, hDone⟩
  · exact .inr ⟨by rw [hEnding]; decide, _, hStopped⟩
  · exact .inr ⟨by rw [hEnding, Ending.code]; decide, _, hStopped⟩

section Formatting

variable [Room] [Console]
variable {tree : FileTree}
variable {words : List Text}
variable {spelled : Text}
variable {onlyCheck : Bool}
variable (input : Text)
variable
  (hWords :
    Console.ofWords? words = some (.format spelled onlyCheck false))

include hWords

/- Formatting what is there is a run over its scripts. -/
theorem execute_format
    {path : Path}
    (hGood : Path.fault? spelled = none)
    (hThere : tree.locate? spelled = some path) :
    execute tree words input =
      complete tree (formatPath spelled path onlyCheck) := by
  rw [execute, hWords]
  simp only [prepare, existing, hGood, hThere]
  rfl

/- Formatting what is not there does nothing. -/
theorem execute_format_nothing
    (hNothing :
      Path.fault? spelled ≠ none ∨ tree.locate? spelled = none) :
    (execute tree words input).world = ⟨tree, [], []⟩ ∧
      (execute tree words input).ending ≠ .success := by
  rw [execute, hWords]
  cases hFault : Path.fault? spelled with
  | some error =>
      simp only [prepare, existing, hFault]
      exact ⟨rfl, by rintro ⟨⟩⟩
  | none =>
      have hNone := hNothing.resolve_left (not_not_intro hFault)
      simp only [prepare, existing, hFault, hNone]
      exact ⟨rfl, by rintro ⟨⟩⟩

end Formatting

end Command

end ExperimentScript
