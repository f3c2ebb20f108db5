import ExperimentScript.Host
import ExperimentScript.Proofs.Command.Effect

/-
  Formatting in place does no harm and settles.

  A run changes nothing but scripts under its path, and every
  changed script is read as before, except that a script
  whose canonical text has a lone surrogate is lost: its file
  has been emptied when the text turns out to have no
  encoding. A run over a directory that succeeds leaves only
  scripts that no further run changes or reports.

  Key definitions include:
    * `ExperimentScript.Command.IsKept`
    * `ExperimentScript.Command.IsLost`
    * `ExperimentScript.Command.Spares`
    * `ExperimentScript.Command.IsSettled`
    * `ExperimentScript.Command.Settles`

  Main declarations:
    * `ExperimentScript.Command.Effects.spares`
    * `ExperimentScript.Command.format_preserves`
    * `ExperimentScript.Command.Effects.settles`
    * `ExperimentScript.Command.format_settles`
-/

namespace ExperimentScript

namespace Command

variable {before between after : FileTree}
variable {path : Path}
variable {onlyCheck : Bool}

------------------------------------------------------------
-- Nothing Else Changes
------------------------------------------------------------

section Preserving

variable [Room]

/- A script is read from its new text as it was from the old one. -/
def IsKept
    (before after : FileTree)
    (path : Path) : Prop :=
  ∃ settings source script text,
    Holds before path settings source script ∧
      after.readText path = .ok text ∧
      ReadsAs settings.isStrict text script.unmark

/-
  A script is gone, and its file is empty. Its canonical text
  has a lone surrogate.
-/
def IsLost
    (before after : FileTree)
    (path : Path) : Prop :=
  ∃ settings source script text,
    Holds before path settings source script ∧
      settings.format script = .ok text ∧
      text.toString? = none ∧
      after.bytes? path = some .empty

/-
  Of all files only those at some paths change. What they hold
  is read as before, or they are lost.
-/
structure Spares
    (paths : List Path)
    (lost : Prop)
    (before after : FileTree) : Prop where
  names : after.SameNames before
  bytes :
    ∀ path,
      after.bytes? path = before.bytes? path ∨
        path ∈ paths ∧
          (IsKept before after path ∨ IsLost before after path ∧ lost)

theorem Spares.refl
    (paths : List Path)
    (lost : Prop)
    (tree : FileTree) :
    Spares paths lost tree tree :=
  ⟨.refl tree, fun _ => .inl rfl⟩

/- Nothing changes where changes are only said. -/
theorem Effect.eq_of_check
    {outcome : Except Stop Bool}
    (hEffect : Effect true path before outcome after) :
    after = before := by
  cases hEffect with
  | kept => rfl
  | canonical => rfl
  | written hWrites => cases hWrites
  | emptied hWrites => cases hWrites

theorem Effect.spares
    {outcome : Except Stop Bool}
    (hEffect : Effect onlyCheck path before outcome after) :
    Spares [path] (outcome = .error (.fault (.file .notEncodable)))
      before after := by
  have hNames := hEffect.names
  cases hEffect with
  | kept => exact .refl _ _ _
  | canonical => exact .refl _ _ _
  | @written settings source text script string _ _ hHolds hText
      hString =>
      refine ⟨hNames, fun other => ?_⟩
      by_cases hOther : other = path
      · refine .inr ⟨List.mem_singleton.mpr hOther, .inl ?_⟩
        rw [hOther]
        exact
          ⟨settings, source, script, text, hHolds,
            FileTree.readText_written
              (FileTree.bytes?_put_self before path string.toUTF8)
              hString
              (Settings.isPlain_format hHolds.parses hText),
            Settings.readsAs_format hHolds.parses hText⟩
      · exact .inl (FileTree.bytes?_put_of_ne before _ hOther)
  | @emptied settings source text script _ hHolds hText hString =>
      refine ⟨hNames, fun other => ?_⟩
      by_cases hOther : other = path
      · refine .inr ⟨List.mem_singleton.mpr hOther, .inr ⟨?_, rfl⟩⟩
        rw [hOther]
        exact
          ⟨settings, source, script, text, hHolds, hText, hString,
            FileTree.bytes?_put_self before path .empty⟩
      · exact .inl (FileTree.bytes?_put_of_ne before _ hOther)

/-
  A script is there as before if neither its file nor a file
  of settings has changed.
-/
theorem Holds.earlier
    {settings : Settings}
    {source : Text}
    {script : Node Span}
    (hHolds : Holds after path settings source script)
    (hNames : after.SameNames before)
    (hBytes : after.bytes? path = before.bytes? path)
    (hSettings :
      ∀ other,
        Settings.isSettings other = true →
          after.bytes? other = before.bytes? other) :
    Holds before path settings source script :=
  ⟨(Settings.nearest_congr hNames hSettings path).symm.trans
      hHolds.nearest,
    (FileTree.readText_congr hNames hBytes).symm.trans hHolds.reads,
    hHolds.parses⟩

section Runs

variable {paths : List Path}
variable {lost : Prop}

theorem Spares.mono
    {more : List Path}
    {further : Prop}
    (hSpares : Spares paths lost before after)
    (hPaths : ∀ path ∈ paths, path ∈ more)
    (hLost : lost → further) :
    Spares more further before after :=
  ⟨hSpares.names, fun path =>
    (hSpares.bytes path).imp_right fun hChanged =>
      ⟨hPaths path hChanged.1,
        hChanged.2.imp_right (And.imp_right hLost)⟩⟩

theorem Spares.bytes_of_ne
    (hSpares : Spares [path] lost before after)
    {other : Path}
    (hOther : other ≠ path) :
    after.bytes? other = before.bytes? other :=
  (hSpares.bytes other).resolve_right fun hChanged =>
    hOther (List.mem_singleton.mp hChanged.1)

/-
  What a script and the scripts after it are spared, all of
  them are. The first one is not among the others and has no
  settings for them.
-/
theorem Spares.trans
    (hFirst : Spares [path] False before between)
    (hOthers : Spares paths lost between after)
    (hApart :
      ∀ other ∈ paths,
        path ≠ other ∧ Settings.isSettings path = false) :
    Spares (path :: paths) lost before after := by
  refine ⟨hOthers.names.trans hFirst.names, fun other => ?_⟩
  rcases hOthers.bytes other with hSame | ⟨hOther, hChanged⟩
  · rcases hFirst.bytes other with hBefore | ⟨hPath, hKept⟩
    · exact .inl (hSame.trans hBefore)
    · rcases hKept.resolve_right And.right with
        ⟨settings, source, script, text, hHolds, hText, hReads⟩
      have hRead := FileTree.readText_congr hOthers.names hSame
      rw [List.mem_singleton] at hPath
      exact
        .inr
          ⟨List.mem_cons.mpr (.inl hPath),
            .inl
              ⟨settings, source, script, text, hHolds,
                hRead.trans hText, hReads⟩⟩
  · have hNext := hApart other hOther
    have hBefore {settings source script}
        (hHolds : Holds between other settings source script) :
        Holds before other settings source script := by
      refine hHolds.earlier hFirst.names
        (hFirst.bytes_of_ne hNext.1.symm) fun file hFile => ?_
      apply hFirst.bytes_of_ne
      rintro rfl
      rw [hNext.2] at hFile
      cases hFile
    refine .inr ⟨List.mem_cons_of_mem path hOther, ?_⟩
    rcases hChanged with
      ⟨settings, source, script, text, hHolds, hKept⟩ |
        ⟨⟨settings, source, script, text, hHolds, hGone⟩, hLost⟩
    · exact
        .inl ⟨settings, source, script, text, hBefore hHolds, hKept⟩
    · exact
        .inr
          ⟨⟨settings, source, script, text, hBefore hHolds, hGone⟩,
            hLost⟩

end Runs

/- Nothing changes where changes are only said. -/
theorem Effects.eq_of_check
    {paths : List Path}
    {outcome : Except Stop Bool}
    (hEffects : Effects true paths before outcome after) :
    after = before := by
  induction hEffects with
  | done => rfl
  | stopped hEffect => exact hEffect.eq_of_check
  | next hEffect _ ih => exact ih.trans hEffect.eq_of_check

/- Formatting some scripts changes no other file. -/
theorem Effects.spares
    {paths : List Path}
    {outcome : Except Stop Bool}
    (hEffects : Effects onlyCheck paths before outcome after)
    (hApart :
      paths.Pairwise fun first later =>
        first ≠ later ∧ Settings.isSettings first = false) :
    Spares paths (outcome = .error (.fault (.file .notEncodable)))
      before after := by
  induction hEffects with
  | done => exact .refl _ _ _
  | stopped hEffect =>
      refine hEffect.spares.mono (fun path hPath => ?_) id
      exact List.mem_cons.mpr (.inl (List.mem_singleton.mp hPath))
  | next hEffect hEffects ih =>
      rw [List.pairwise_cons] at hApart
      have hFirst : Spares _ False _ _ :=
        hEffect.spares.mono (fun _ hPath => hPath)
          (by rintro ⟨⟩)
      refine hFirst.trans ((ih hApart.2).mono (fun _ hPath => hPath) ?_)
        hApart.1
      rintro rfl
      rfl

/-
  Formatting a path, or only checking it, changes no file but
  scripts under the path, and nothing at all in a check. A
  script that changes is read as before with the settings
  that held for it. Only a script whose canonical text has no
  encoding is lost, and that is what the command ends with.
-/
theorem format_preserves
    [Console]
    (tree : FileTree)
    (words : List Text)
    (input : Text)
    (spelled : Text)
    (onlyCheck : Bool)
    (outcome : Outcome)
    (hProper : tree.isProper = true)
    (hWords :
      Console.ofWords? words = some (.format spelled onlyCheck false))
    (hOutcome : execute tree words input = outcome) :
    (onlyCheck = true → outcome.world.tree = tree) ∧
      ∀ path,
        outcome.world.tree.bytes? path = tree.bytes? path ∨
          IsScriptUnder tree spelled path ∧
            (IsKept tree outcome.world.tree path ∨
              IsLost tree outcome.world.tree path ∧
                outcome.ending = .fault (.file .notEncodable)) := by
  subst hOutcome
  by_cases hNothing :
      Path.fault? spelled ≠ none ∨ tree.locate? spelled = none
  · have hTree :
        (execute tree words input).world.tree = tree :=
      congrArg World.tree
        (execute_format_nothing input hWords hNothing).1
    rw [hTree]
    exact ⟨fun _ => rfl, fun path => .inl rfl⟩
  · rw [not_or, not_not] at hNothing
    rcases Option.ne_none_iff_exists'.mp hNothing.2 with
      ⟨root, hThere⟩
    rcases effects_execute input hProper hWords hNothing.1 hThere with
      ⟨outcome, hEffects, _, hEnding⟩
    have hApart := apart_scriptsAt tree spelled root
    have hSpares := hEffects.spares (List.pairwise_map.mpr hApart)
    constructor
    · rintro rfl
      exact hEffects.eq_of_check
    · intro path
      refine (hSpares.bytes path).imp_right fun hChanged => ?_
      rcases List.mem_map.mp hChanged.1 with ⟨file, hFile, rfl⟩
      exact
        ⟨isScriptUnder_of_mem hThere hFile,
          hChanged.2.imp_right (And.imp_right (hEnding _))⟩

end Preserving

/- A script that spells a lone surrogate is lost. -/
theorem format_preserves_surrogate :
    ∃ tree : FileTree,
      tree.bytes? ["a.planout"] =
          some "x = \"\\ud800\";".toUTF8 ∧
        (∀ path : Path,
          path ≠ [("a.planout" : Text)] →
            (execute tree ["format", "a.planout"] []).world.tree.bytes?
                path =
              tree.bytes? path) ∧
        (execute tree ["format", "a.planout"] []).world.tree.bytes?
            ["a.planout"] =
          some .empty := by
  refine
    ⟨⟨[], [(["a.planout"], "x = \"\\ud800\";".toUTF8)]⟩,
      by decide +kernel, fun path hPath => ?_, by decide +kernel⟩
  have hWhole :=
    format_preserves
      ⟨[], [(["a.planout"], "x = \"\\ud800\";".toUTF8)]⟩
      ["format", "a.planout"] [] "a.planout" false _
      (by decide +kernel) (by decide +kernel) rfl
  refine (hWhole.2 path).resolve_right fun hChanged => ?_
  rcases hChanged.1 with ⟨root, hThere, hUnder⟩
  have hRoot : root = [("a.planout" : Text)] :=
    Option.some.inj (hThere.symm.trans (by decide +kernel))
  subst hRoot
  exact hPath hUnder

------------------------------------------------------------
-- Nothing Is Left To Do
------------------------------------------------------------

section Settling

variable [Room]

/- A script has its canonical text, unless it nests too deeply. -/
def IsSettled
    (tree : FileTree)
    (path : Path) : Prop :=
  ∃ settings text,
    Settings.nearest tree path = .ok settings ∧
      tree.readText path = .ok text ∧ settings.IsCanonical text

/- The text of a script nests too deeply to be read. -/
def NestsTooDeeply
    (tree : FileTree)
    (path : Path) : Prop :=
  ∃ settings text error,
    Settings.nearest tree path = .ok settings ∧
      tree.readText path = .ok text ∧
      parse settings.isStrict text = .error (.syntactic error) ∧
      error.isDepthLimit = true

/-
  Files that are not among those at some paths do not change,
  and there are settled scripts at these.
-/
structure Settles
    (paths : List Path)
    (before after : FileTree) : Prop where
  names : after.SameNames before
  bytes :
    ∀ path, path ∉ paths → after.bytes? path = before.bytes? path
  settled : ∀ path ∈ paths, IsSettled after path

/-
  A script stays settled if neither its file nor a file of
  settings changes.
-/
theorem IsSettled.later
    (hSettled : IsSettled before path)
    (hNames : after.SameNames before)
    (hBytes : after.bytes? path = before.bytes? path)
    (hSettings :
      ∀ other,
        Settings.isSettings other = true →
          after.bytes? other = before.bytes? other) :
    IsSettled after path := by
  rcases hSettled with ⟨settings, text, hNearest, hText, hCanonical⟩
  exact
    ⟨settings, text,
      (Settings.nearest_congr hNames hSettings path).trans hNearest,
      (FileTree.readText_congr hNames hBytes).trans hText,
      hCanonical⟩

/- A path that is none of settings is not that of a file of settings. -/
omit [Room] in
theorem ne_of_isSettings
    {other : Path}
    (hPath : Settings.isSettings path = false)
    (hOther : Settings.isSettings other = true) :
    other ≠ path := by
  rintro rfl
  rw [hPath] at hOther
  cases hOther

theorem Effect.settles
    (hEffect : Effect false path before (.ok false) after)
    (hPath : Settings.isSettings path = false) :
    Settles [path] before after := by
  have hNames := hEffect.names
  cases hEffect with
  | kept hFails => exact absurd rfl hFails
  | @canonical settings source script hHolds hText =>
      refine ⟨hNames, fun _ _ => rfl, fun other hOther => ?_⟩
      rw [List.mem_singleton.mp hOther]
      exact
        ⟨settings, source, hHolds.nearest, hHolds.reads,
          Settings.isCanonical_format hHolds.parses hText⟩
  | @written settings source text script string _ _ hHolds hText
      hString =>
      have hBytes (other : Path) (hOther : other ≠ path) :
          (before.put path string.toUTF8).bytes? other =
            before.bytes? other :=
        FileTree.bytes?_put_of_ne before _ hOther
      have hNearest :
          Settings.nearest (before.put path string.toUTF8) path =
            Settings.nearest before path :=
        Settings.nearest_congr hNames
          (fun other hOther =>
            hBytes other (ne_of_isSettings hPath hOther))
          path
      have hRead :
          (before.put path string.toUTF8).readText path = .ok text :=
        FileTree.readText_written
          (FileTree.bytes?_put_self before path _) hString
          (Settings.isPlain_format hHolds.parses hText)
      refine ⟨hNames, fun other hOther => ?_, fun other hOther => ?_⟩
      · exact hBytes other fun hSame =>
          hOther (List.mem_singleton.mpr hSame)
      · rw [List.mem_singleton.mp hOther]
        exact
          ⟨settings, text, hNearest.trans hHolds.nearest, hRead,
            Settings.isCanonical_format hHolds.parses hText⟩

/- Scripts that are settled one after the other are settled in the end. -/
theorem Settles.trans
    {paths : List Path}
    (hFirst : Settles [path] before between)
    (hOthers : Settles paths between after)
    (hScripts :
      ∀ other ∈ paths, Settings.isSettings other = false) :
    Settles (path :: paths) before after := by
  refine ⟨hOthers.names.trans hFirst.names, fun other hOther => ?_,
    fun other hOther => ?_⟩
  · rw [List.mem_cons, not_or] at hOther
    rw [hOthers.bytes other hOther.2]
    exact hFirst.bytes other fun hSame =>
      hOther.1 (List.mem_singleton.mp hSame)
  · by_cases hLater : other ∈ paths
    · exact hOthers.settled other hLater
    · have hSame := (List.mem_cons.mp hOther).resolve_right hLater
      have hSettled :=
        hFirst.settled other (List.mem_singleton.mpr hSame)
      refine hSettled.later hOthers.names
        (hOthers.bytes other hLater) fun file hFile => ?_
      apply hOthers.bytes
      intro hAmong
      exact ne_of_isSettings (hScripts file hAmong) hFile rfl

/- Scripts are settled by a run that none of them made fail. -/
theorem Effects.settles
    {paths : List Path}
    {outcome : Except Stop Bool}
    (hEffects : Effects false paths before outcome after)
    (hDone : outcome = .ok false)
    (hScripts :
      ∀ path ∈ paths, Settings.isSettings path = false) :
    Settles paths before after := by
  induction hEffects with
  | @done tree =>
      exact ⟨.refl tree, fun _ _ => rfl,
        fun _ hPath => absurd hPath List.not_mem_nil⟩
  | stopped => cases hDone
  | @next path paths before between after failed outcome hEffect
      hEffects ih =>
      rw [List.forall_mem_cons] at hScripts
      cases outcome with
      | error stop => cases hDone
      | ok rest =>
          have hBoth : (failed || rest) = false :=
            Except.ok.inj hDone
          rw [Bool.or_eq_false_iff] at hBoth
          cases hBoth.1
          cases hBoth.2
          exact
            (hEffect.settles hScripts.1).trans (ih rfl hScripts.2)
              hScripts.2

------------------------------------------------------------
-- Formatting Settled Scripts
------------------------------------------------------------

/- A settled script is left alone, and nothing is said about it. -/
theorem quiet_formatFile
    [Console]
    (onlyCheck : Bool)
    {file : ScriptFile}
    {world : World}
    (hSettled : IsSettled world.tree file.path) :
    (formatFile onlyCheck file).Ends world
      (fun failed after =>
        after.tree = world.tree ∧ after.output = world.output ∧
          (failed = true → NestsTooDeeply world.tree file.path))
      (fun _ _ => False) := by
  rcases hSettled with ⟨settings, text, hNearest, hText, hCanonical⟩
  rw [formatFile]
  simp only [settingsFor, read, Run.ends_bind, Run.ends_tree,
    Run.ends_check, hNearest, hText]
  refine ⟨fun found hFound => ?_, by rintro _ ⟨⟩⟩
  cases hFound
  refine ⟨fun found hFound => ?_, by rintro _ ⟨⟩⟩
  cases hFound
  unfold Settings.IsCanonical at hCanonical
  cases hParse : parse settings.isStrict text with
  | ok script =>
      rw [hParse] at hCanonical
      simp only [Run.ends_bind, Run.ends_check, hCanonical]
      refine ⟨fun found hFound => ?_, by rintro _ ⟨⟩⟩
      cases hFound
      rw [if_pos rfl]
      exact ⟨rfl, rfl, by rintro ⟨⟩⟩
  | error error =>
      rw [hParse] at hCanonical
      cases error with
      | lexical error => exact hCanonical.elim
      | «syntactic» error =>
          exact ⟨rfl, rfl, fun _ =>
            ⟨settings, text, error, hNearest, hText, hParse,
              hCanonical⟩⟩

theorem quiet_formatFiles
    [Console]
    (onlyCheck : Bool)
    {files : List ScriptFile}
    {world : World}
    (hSettled : ∀ file ∈ files, IsSettled world.tree file.path) :
    (formatFiles onlyCheck files).Ends world
      (fun failed after =>
        after.tree = world.tree ∧ after.output = world.output ∧
          (failed = true →
            ∃ file ∈ files, NestsTooDeeply world.tree file.path))
      (fun _ _ => False) := by
  induction files generalizing world with
  | nil => exact ⟨rfl, rfl, by rintro ⟨⟩⟩
  | cons file files ih =>
      rw [List.forall_mem_cons] at hSettled
      rw [formatFiles, Run.ends_bind]
      refine (quiet_formatFile onlyCheck hSettled.1).mono
        (fun first between hFirst => ?_) (fun _ _ hNever => hNever)
      rcases hFirst with ⟨hTree, hOutput, hDeep⟩
      rw [Run.ends_bind]
      have hOthers :
          ∀ other ∈ files, IsSettled between.tree other.path := by
        rw [hTree]
        exact hSettled.2
      refine (ih hOthers).mono
        (fun rest after hRest => ?_) (fun _ _ hNever => hNever)
      rcases hRest with ⟨hRestTree, hRestOutput, hRestDeep⟩
      refine ⟨hRestTree.trans hTree, hRestOutput.trans hOutput,
        fun hFailed => ?_⟩
      rcases Bool.or_eq_true_iff.mp hFailed with hFailed | hFailed
      · exact ⟨file, List.mem_cons_self, hDeep hFailed⟩
      · rcases hRestDeep hFailed with ⟨other, hOther, hNests⟩
        rw [hTree] at hNests
        exact ⟨other, List.mem_cons_of_mem file hOther, hNests⟩

theorem quiet_formatPath
    [Console]
    (onlyCheck : Bool)
    (spelled : Text)
    (root : Path)
    (world : World)
    (hSettled :
      ∀ file ∈ scriptsAt world.tree spelled root,
        IsSettled world.tree file.path) :
    (formatPath spelled root onlyCheck).Ends world
      (fun _ after =>
        after.tree = world.tree ∧ after.output = world.output)
      (fun stop after =>
        stop = .failure ∧
          after.tree = world.tree ∧ after.output = world.output ∧
          ∃ file ∈ scriptsAt world.tree spelled root,
            NestsTooDeeply world.tree file.path) := by
  rw [formatPath, Run.ends_bind, Run.ends_tree]
  by_cases hNone : (scriptsAt world.tree spelled root).isEmpty = true
  · simp only [hNone, if_true, Run.ends_warn]
    exact ⟨trivial, trivial⟩
  · simp only [hNone, Bool.false_eq_true, if_false, Run.ends_bind]
    refine (quiet_formatFiles onlyCheck hSettled).mono
      (fun failed after hQuiet => ?_) (fun _ _ hNever => hNever.elim)
    rcases hQuiet with ⟨hTree, hOutput, hDeep⟩
    cases failed with
    | false => exact ⟨hTree, hOutput⟩
    | true => exact ⟨rfl, hTree, hOutput, hDeep rfl⟩

/-
  After a directory has been formatted with success, formatting
  or checking it once more changes nothing and says nothing,
  and succeeds too unless a script now nests too deeply to be
  read, which is reported as an error.
-/
theorem format_settles
    [Console]
    (tree after : FileTree)
    (words again : List Text)
    (input later : Text)
    (spelled : Text)
    (root : Path)
    (onlyCheck : Bool)
    (hProper : tree.isProper = true)
    (hWords :
      Console.ofWords? words = some (.format spelled false false))
    (hThere : tree.locate? spelled = some root)
    (hDirectory : tree.isDirectory root = true)
    (hCode : (execute tree words input).ending.code = 0)
    (hAfter : (execute tree words input).world.tree = after)
    (hAgain :
      Console.ofWords? again =
        some (.format spelled onlyCheck false)) :
    (execute after again later).world.tree = after ∧
      (execute after again later).world.output = [] ∧
      ((execute after again later).ending.code = 0 ∨
        (execute after again later).ending = .failure ∧
          ∃ path,
            IsScriptUnder tree spelled path ∧
              NestsTooDeeply after path) := by
  have hSuccess := Ending.code_eq_zero hCode
  have hGood : Path.fault? spelled = none := by
    by_contra hBad
    exact (execute_format_nothing input hWords (.inl hBad)).2 hSuccess
  rcases effects_execute input hProper hWords hGood hThere with
    ⟨outcome, hEffects, hDone, _⟩
  rw [hAfter] at hEffects
  have hPaths :
      ∀ path ∈ (scriptsAt tree spelled root).map ScriptFile.path,
        Settings.isSettings path = false := by
    intro path hPath
    rcases List.mem_map.mp hPath with ⟨file, hFile, rfl⟩
    exact isSettings_script hDirectory hFile
  have hSettles := hEffects.settles (hDone hSuccess) hPaths
  have hScripts := scriptsAt_congr hSettles.names spelled root
  have hSettled :
      ∀ file ∈ scriptsAt after spelled root,
        IsSettled after file.path := by
    intro file hFile
    rw [hScripts] at hFile
    exact hSettles.settled file.path (List.mem_map_of_mem hFile)
  have hDeep
      (hFiles :
        ∃ file ∈ scriptsAt after spelled root,
          NestsTooDeeply after file.path) :
      ∃ path,
        IsScriptUnder tree spelled path ∧
          NestsTooDeeply after path := by
    rcases hFiles with ⟨file, hFile, hNests⟩
    rw [hScripts] at hFile
    exact ⟨file.path, isScriptUnder_of_mem hThere hFile, hNests⟩
  rw [execute_format later hAgain hGood
    ((hSettles.names.locate? spelled).trans hThere)]
  rcases complete_cases
      (quiet_formatPath onlyCheck spelled root ⟨after, [], []⟩
        hSettled) with
    ⟨hEnding, hTree, hOutput⟩ |
      ⟨hEnding, _, hTree, hOutput, hFiles⟩ | ⟨_, _, hFault, _⟩
  · exact ⟨hTree, hOutput, .inl (congrArg Ending.code hEnding)⟩
  · exact ⟨hTree, hOutput, .inr ⟨hEnding, hDeep hFiles⟩⟩
  · cases hFault

end Settling

/- A script in a directory is formatted once and not reported again. -/
theorem format_settles_assignment :
    ∃ tree after : FileTree,
      (execute tree ["format", "d"] []).world.tree = after ∧
        after.bytes? ["d", "a.planout"] = some "x = 1;\n".toUTF8 ∧
        tree.bytes? ["d", "a.planout"] ≠ after.bytes? ["d", "a.planout"] ∧
        (execute after ["format", "--check", "d"] []).world.tree =
          after ∧
        (execute after ["format", "--check", "d"] []).world.output =
          [] ∧
        (execute after ["format", "--check", "d"] []).ending.code =
          0 := by
  have hWhole :=
    format_settles
      ⟨[], [(["d", "a.planout"], "x=1;".toUTF8)]⟩ _
      ["format", "d"] ["format", "--check", "d"] [] [] "d" ["d"] true
      (by decide +kernel) (by decide +kernel) (by decide +kernel)
      (by decide +kernel) (by decide +kernel) rfl (by decide +kernel)
  exact ⟨_, _, rfl, by decide +kernel, by decide +kernel, hWhole.1,
    hWhole.2.1, by decide +kernel⟩

end Command

end ExperimentScript
