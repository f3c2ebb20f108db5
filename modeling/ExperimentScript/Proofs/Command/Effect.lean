import ExperimentScript.Proofs.Command.Outcome
import ExperimentScript.Proofs.Command.Scripts
import ExperimentScript.Proofs.Format.RoundTrip
import ExperimentScript.Proofs.Format.Unmarked

/-
  What formatting scripts in place does to a file tree.

  What formatting one script can do to a tree is one of four
  things: nothing in a run that goes on or stops, nothing
  because the script has its canonical text, writing that
  text, or emptying the file because the text has no
  encoding. A run over some scripts is a row of such effects,
  each on the tree that the one before it left.

  Key definitions include:
    * `ExperimentScript.Settings.IsCanonical`
    * `ExperimentScript.Command.Holds`
    * `ExperimentScript.Command.Effect`
    * `ExperimentScript.Command.Effects`

  Main declarations:
    * `ExperimentScript.Settings.readsAs_format`
    * `ExperimentScript.Settings.isCanonical_format`
    * `ExperimentScript.Command.effect_formatFile`
    * `ExperimentScript.Command.effects_execute`
-/

namespace ExperimentScript

------------------------------------------------------------
-- Canonical Texts
------------------------------------------------------------

namespace Settings

variable [Room]

/- A text is its own canonical text, unless it nests too deeply. -/
def IsCanonical
    (settings : Settings)
    (text : Text) : Prop :=
  match parse settings.isStrict text with
  | .ok script => settings.format script = .ok text
  | .error (.syntactic error) => error.isDepthLimit = true
  | .error (.lexical _) => False

variable {settings : Settings}
variable {source text : Text}
variable {script : Node Span}

/-
  A script is formatted with some indent. One without
  statements is formatted even where the indent is no number.
-/
theorem exists_indent
    (hText : settings.format script = .ok text) :
    ∃ indent : Int,
      Format.script ⟨indent, settings.isStrict⟩ script = .ok text ∧
        ∀ read : Node Span,
          read.unmark = script.unmark →
            Format.script ⟨indent, settings.isStrict⟩ read =
                .ok text →
              settings.format read = .ok text := by
  cases hIndent : settings.formatIndent.toInt? with
  | some indent =>
      have hFormat (read : Node Span) :
          settings.format read =
            Format.script ⟨indent, settings.isStrict⟩ read := by
        simp only [format.eq_def, hIndent]
      refine ⟨indent, (hFormat script).symm.trans hText, ?_⟩
      intro read _ hRead
      exact (hFormat read).trans hRead
  | none =>
      rw [format.eq_def, hIndent] at hText
      cases script with
      | sequence body mark =>
          cases body with
          | cons node nodes => cases hText
          | nil =>
              cases hText
              refine ⟨0, rfl, ?_⟩
              intro read hRead _
              rw [format.eq_def, hIndent]
              cases read with
              | sequence body mark =>
                  cases body with
                  | nil => rfl
                  | cons node nodes =>
                      simp [Node.unmark, Node.unmarkAll] at hRead
              | _ => simp [Node.unmark] at hRead
      | _ => cases hText

omit [Room] in
theorem isScript_of_parse_eq
    {strict : Bool}
    (hParse : parse strict source = .ok script) :
    script.isScript (!strict) = true := by
  rcases exists_of_parse hParse with ⟨tokens, hTokens, hRead⟩
  exact isScript_of_parseTokens hTokens hRead

variable (hParse : parse settings.isStrict source = .ok script)
variable (hText : settings.format script = .ok text)
include hParse hText

/- The canonical text of a script that was read is read as it. -/
theorem readsAs_format :
    ReadsAs settings.isStrict text script.unmark := by
  rcases exists_indent hText with ⟨indent, hScript, _⟩
  have hReads :=
    Format.readsAs_of_script (isScript_of_parse_eq hParse) hScript
  exact hReads

theorem isPlain_format : text.IsPlain := by
  rcases exists_indent hText with ⟨indent, hScript, _⟩
  exact
    Format.isPlain_script (isScript_of_parse_eq hParse) hScript

/-
  It is its own canonical text, since the script that is read
  from it differs in marks at most.
-/
theorem isCanonical_format : settings.IsCanonical text := by
  rcases exists_indent hText with ⟨indent, hScript, hAgain⟩
  have hReads := readsAs_format hParse hText
  unfold ReadsAs at hReads
  unfold IsCanonical
  cases hRead : parse settings.isStrict text with
  | error error =>
      rw [hRead] at hReads
      cases error <;> exact hReads
  | ok read =>
      rw [hRead] at hReads
      apply hAgain read hReads
      rw [← Format.script_unmark (isScript_of_parse_eq hRead), hReads,
        Format.script_unmark (isScript_of_parse_eq hParse), hScript]

end Settings

namespace Command

------------------------------------------------------------
-- Scripts In A Tree
------------------------------------------------------------

variable [Room]

/-
  There is a script at a path, which is read from a text with
  the settings that hold there.
-/
structure Holds
    (tree : FileTree)
    (path : Path)
    (settings : Settings)
    (source : Text)
    (script : Node Span) : Prop where
  nearest : Settings.nearest tree path = .ok settings
  reads : tree.readText path = .ok source
  parses : parse settings.isStrict source = .ok script

variable {before after : FileTree}
variable {path : Path}
variable {onlyCheck : Bool}

omit [Room] in
theorem isFile_of_readText
    {tree : FileTree}
    {source : Text}
    (hSource : tree.readText path = .ok source) :
    tree.isFile path = true := by
  rw [FileTree.isFile]
  cases hBytes : tree.bytes? path with
  | some bytes => rfl
  | none =>
      rw [FileTree.readText, FileTree.readRaw, FileTree.readBytes,
        hBytes] at hSource
      cases hSource

------------------------------------------------------------
-- Formatting One Script
------------------------------------------------------------

/-
  What formatting the script at a path can do to a tree, by
  how it ends: with whether the command fails because of it,
  or by stopping.
-/
inductive Effect
    (onlyCheck : Bool)
    (path : Path)
    (tree : FileTree) :
    Except Stop Bool → FileTree → Prop where
  /- It failed or only said what it would do. -/
  | kept
      {outcome : Except Stop Bool}
      (hFails : outcome ≠ .ok false) :
      Effect onlyCheck path tree outcome tree
  /- The script has its canonical text. -/
  | canonical
      {settings : Settings}
      {source : Text}
      {script : Node Span}
      (hHolds : Holds tree path settings source script)
      (hText : settings.format script = .ok source) :
      Effect onlyCheck path tree (.ok false) tree
  /- The canonical text was written. -/
  | written
      {settings : Settings}
      {source text : Text}
      {script : Node Span}
      {string : String}
      {outcome : Except Stop Bool}
      (hWrites : onlyCheck = false)
      (hHolds : Holds tree path settings source script)
      (hText : settings.format script = .ok text)
      (hString : text.toString? = some string) :
      Effect onlyCheck path tree outcome
        (tree.put path string.toUTF8)
  /- The canonical text has no encoding, and the file is empty now. -/
  | emptied
      {settings : Settings}
      {source text : Text}
      {script : Node Span}
      (hWrites : onlyCheck = false)
      (hHolds : Holds tree path settings source script)
      (hText : settings.format script = .ok text)
      (hString : text.toString? = none) :
      Effect onlyCheck path tree
        (.error (.fault (.file .notEncodable)))
        (tree.put path .empty)

/- Formatting a script that is written where it was read has such an effect. -/
theorem effect_formatFile
    [Console]
    (onlyCheck : Bool)
    (file : ScriptFile)
    (world : World)
    (hTarget :
      ∀ found,
        world.tree.target file.name = .ok found → found = file.path) :
    (formatFile onlyCheck file).Ends world
      (fun failed after =>
        Effect onlyCheck file.path world.tree (.ok failed) after.tree)
      (fun stop after =>
        Effect onlyCheck file.path world.tree (.error stop)
          after.tree) := by
  have hStops (stop : Stop) :
      Effect onlyCheck file.path world.tree (.error stop)
        world.tree :=
    .kept (by rintro ⟨⟩)
  have hFails :
      Effect onlyCheck file.path world.tree (.ok true) world.tree :=
    .kept (by rintro ⟨⟩)
  rw [formatFile]
  simp only [settingsFor, read, Run.ends_bind, Run.ends_tree,
    Run.ends_check]
  refine ⟨fun settings hSettings => ⟨fun source hSource => ?_,
    fun _ _ => hStops _⟩, fun _ _ => hStops _⟩
  cases hParse : parse settings.isStrict source with
  | error error => exact hFails
  | ok script =>
      have hHolds :
          Holds world.tree file.path settings source script :=
        ⟨hSettings, hSource, hParse⟩
      simp only [Run.ends_bind, Run.ends_check]
      refine ⟨fun text hText => ?_, fun _ _ => hStops _⟩
      by_cases hSame : text = source
      · rw [if_pos hSame]
        exact .canonical hHolds (hText.trans (congrArg _ hSame))
      · rw [if_neg hSame]
        cases onlyCheck with
        | true =>
            rw [if_pos rfl]
            simp only [Run.printLine, Run.ends_bind, Run.ends_print,
              Run.ends_pure]
            split
            · exact hStops _
            · exact hFails
        | false =>
            rw [if_neg Bool.false_ne_true]
            simp only [Run.printLine, Run.ends_bind, Run.ends_write,
              Run.ends_print, Run.ends_pure]
            rcases world.tree.writeText_cases file.name text with
              ⟨error, hWritten⟩ | ⟨found, hFound, hWritten⟩
            · rw [hWritten]
              exact ⟨by rintro _ ⟨⟩, fun _ _ => hStops _⟩
            · cases hTarget found hFound
              rcases hWritten with
                ⟨string, hString, hWritten⟩ | ⟨hString, hWritten⟩
              · rw [hWritten]
                refine ⟨fun _ _ => ?_, by rintro _ ⟨⟩⟩
                split
                · exact .written rfl hHolds hText hString
                · exact .written rfl hHolds hText hString
              · rw [hWritten]
                refine ⟨by rintro _ ⟨⟩, fun _ hError => ?_⟩
                cases hError
                exact .emptied rfl hHolds hText hString

------------------------------------------------------------
-- Formatting Some Scripts
------------------------------------------------------------

/-
  What formatting the scripts at some paths can do to a tree:
  one effect after the other, up to the first that stops the
  run.
-/
inductive Effects
    (onlyCheck : Bool) :
    List Path → FileTree → Except Stop Bool → FileTree → Prop where
  | done
      {tree : FileTree} :
      Effects onlyCheck [] tree (.ok false) tree
  | stopped
      {path : Path}
      {paths : List Path}
      {tree after : FileTree}
      {stop : Stop}
      (hEffect : Effect onlyCheck path tree (.error stop) after) :
      Effects onlyCheck (path :: paths) tree (.error stop) after
  | next
      {path : Path}
      {paths : List Path}
      {tree between after : FileTree}
      {failed : Bool}
      {outcome : Except Stop Bool}
      (hEffect : Effect onlyCheck path tree (.ok failed) between)
      (hEffects : Effects onlyCheck paths between outcome after) :
      Effects onlyCheck (path :: paths) tree
        (outcome.map (failed || ·)) after

/- Every script is written where it was read. -/
def AreTargets
    (tree : FileTree)
    (files : List ScriptFile) : Prop :=
  ∀ file ∈ files,
    ∀ found, tree.target file.name = .ok found → found = file.path

theorem Effect.names
    {outcome : Except Stop Bool}
    (hEffect : Effect onlyCheck path before outcome after) :
    after.SameNames before := by
  cases hEffect with
  | kept => exact .refl before
  | canonical => exact .refl before
  | written _ hHolds =>
      exact FileTree.sameNames_put _ (isFile_of_readText hHolds.reads)
  | emptied _ hHolds =>
      exact FileTree.sameNames_put _ (isFile_of_readText hHolds.reads)

omit [Room] in
theorem AreTargets.of_cons
    {file : ScriptFile}
    {files : List ScriptFile}
    (hTargets : AreTargets before (file :: files))
    (hNames : after.SameNames before) :
    AreTargets after files := by
  intro other hOther found hFound
  rw [hNames.target] at hFound
  exact hTargets other (List.mem_cons_of_mem file hOther) found hFound

/- Formatting scripts that are written where they were read has such effects. -/
theorem effects_formatFiles
    [Console]
    (onlyCheck : Bool)
    {files : List ScriptFile}
    {world : World}
    (hTargets : AreTargets world.tree files) :
    (formatFiles onlyCheck files).Ends world
      (fun failed after =>
        Effects onlyCheck (files.map ScriptFile.path) world.tree
          (.ok failed) after.tree)
      (fun stop after =>
        Effects onlyCheck (files.map ScriptFile.path) world.tree
          (.error stop) after.tree) := by
  induction files generalizing world with
  | nil => exact .done
  | cons file files ih =>
      have hFirst :=
        effect_formatFile onlyCheck file world
          (hTargets file List.mem_cons_self)
      rw [formatFiles, Run.ends_bind]
      refine hFirst.mono (fun failed between hEffect => ?_)
        (fun stop after hEffect => .stopped hEffect)
      rw [Run.ends_bind]
      exact (ih (hTargets.of_cons hEffect.names)).mono
        (fun _ _ hRest => .next hEffect hRest)
        (fun _ _ hRest => .next hEffect hRest)

/-
  A command that formats a path ends well only if no script
  made it fail.
-/
theorem effects_formatPath
    [Console]
    (onlyCheck : Bool)
    (spelled : Text)
    (path : Path)
    {world : World}
    (hTargets :
      AreTargets world.tree (scriptsAt world.tree spelled path)) :
    (formatPath spelled path onlyCheck).Ends world
      (fun _ after =>
        Effects onlyCheck
          ((scriptsAt world.tree spelled path).map ScriptFile.path)
          world.tree (.ok false) after.tree)
      (fun stop after =>
        ∃ outcome,
          Effects onlyCheck
              ((scriptsAt world.tree spelled path).map ScriptFile.path)
              world.tree outcome after.tree ∧
            (outcome = .ok true ∧ stop = .failure ∨
              outcome = .error stop)) := by
  rw [formatPath, Run.ends_bind, Run.ends_tree]
  by_cases hNone : (scriptsAt world.tree spelled path).isEmpty = true
  · simp only [hNone, if_true, Run.ends_warn]
    rw [List.isEmpty_iff.mp hNone]
    exact .done
  · simp only [hNone, Bool.false_eq_true, if_false, Run.ends_bind]
    refine (effects_formatFiles onlyCheck hTargets).mono
      (fun failed after hEffects => ?_)
      (fun stop after hEffects => ⟨_, hEffects, .inr rfl⟩)
    cases failed with
    | false => exact hEffects
    | true => exact ⟨_, hEffects, .inl ⟨rfl, rfl⟩⟩

/- What a command line that formats a path does to a tree. -/
theorem effects_execute
    [Console]
    {tree : FileTree}
    {words : List Text}
    {spelled : Text}
    (input : Text)
    (hProper : tree.isProper = true)
    (hWords :
      Console.ofWords? words = some (.format spelled onlyCheck false))
    (hGood : Path.fault? spelled = none)
    (hThere : tree.locate? spelled = some path) :
    ∃ outcome,
      Effects onlyCheck
          ((scriptsAt tree spelled path).map ScriptFile.path) tree
          outcome (execute tree words input).world.tree ∧
        ((execute tree words input).ending = .success →
          outcome = .ok false) ∧
        ∀ fault,
          outcome = .error (.fault fault) →
            (execute tree words input).ending = .fault fault := by
  rw [execute_format input hWords hGood hThere]
  have hTargets :
      AreTargets tree (scriptsAt tree spelled path) :=
    fun _ hFile _ hFound => target_script hProper hThere hFile hFound
  rcases complete_cases (effects_formatPath onlyCheck spelled path hTargets)
    with ⟨hEnding, hEffects⟩ | ⟨hEnding, outcome, hEffects, hOutcome⟩ |
      ⟨fault, hEnding, outcome, hEffects, hOutcome⟩
  · exact ⟨_, hEffects, fun _ => rfl, by rintro _ ⟨⟩⟩
  · refine ⟨outcome, hEffects, ?_, ?_⟩
    · rw [hEnding]
      rintro ⟨⟩
    · rintro fault rfl
      rcases hOutcome with ⟨hFailed, _⟩ | hStop
      · cases hFailed
      · cases hStop
  · refine ⟨outcome, hEffects, ?_, ?_⟩
    · rw [hEnding]
      rintro ⟨⟩
    · rintro other rfl
      rcases hOutcome with ⟨hFailed, _⟩ | hStop
      · cases hFailed
      · cases hStop
        exact hEnding

end Command

end ExperimentScript
