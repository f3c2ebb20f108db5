import ExperimentScript.Command.Run
import ExperimentScript.Proofs.FileTree.Written

/-
  The scripts that a command is carried out on.

  A script is shown under a name that leads to its path, so
  it is written where it was read. Below a directory no two
  scripts have the same path, and none is a file of settings.

  Key definitions include:
    * `ExperimentScript.Command.IsScriptUnder`

  Main declarations:
    * `ExperimentScript.Command.target_script`
    * `ExperimentScript.Command.isScriptUnder_of_mem`
    * `ExperimentScript.Command.apart_scriptsAt`
-/

namespace ExperimentScript

namespace Command

/-
  Whether a path is that of a script under a spelled path: the
  one that is spelled, or one below it that has the ending of
  scripts.
-/
def IsScriptUnder
    (tree : FileTree)
    (spelled : Text)
    (path : Path) : Prop :=
  ∃ root,
    tree.locate? spelled = some root ∧
      if tree.isDirectory root = true then
        root <+: path ∧ root ≠ path ∧
          Path.endsIn scriptEnding path = true
      else path = root

variable {tree other : FileTree}
variable {spelled : Text}
variable {path : Path}

/- The scripts depend on the names in a tree. -/
theorem scriptsAt_congr
    (hSame : tree.SameNames other)
    (spelled : Text)
    (path : Path) :
    scriptsAt tree spelled path = scriptsAt other spelled path := by
  rw [scriptsAt, scriptsAt, hSame.isDirectory, hSame.below]

------------------------------------------------------------
-- Names
------------------------------------------------------------

/- A tidy path has the names it had before. -/
theorem names_tidy (spelled : Text) :
    Path.names (Path.tidy spelled) = Path.names spelled := by
  have hNames :
      Path.names (Path.toText (Path.names spelled)) =
        Path.names spelled :=
    Path.names_toText fun _ hName => Path.isStep_of_mem_names hName
  rw [Path.tidy]
  by_cases hAbsolute : Path.isAbsolute spelled = true
  · rw [if_pos hAbsolute, Path.names_stroke, hNames]
  · rw [if_neg hAbsolute]
    split
    · rename_i hEmpty
      rw [List.isEmpty_iff] at hEmpty
      rw [hEmpty] at hNames
      rw [← hNames]
      rfl
    · exact hNames

theorem isAbsolute_tidy (spelled : Text) :
    Path.isAbsolute (Path.tidy spelled) = Path.isAbsolute spelled := by
  have hRelative :
      Path.isAbsolute (Path.toText (Path.names spelled)) = false :=
    Path.isAbsolute_toText fun _ hName =>
      Path.isStep_of_mem_names hName
  rw [Path.tidy]
  by_cases hAbsolute : Path.isAbsolute spelled = true
  · rw [if_pos hAbsolute, hAbsolute]
    rfl
  · rw [if_neg hAbsolute, eq_false_of_ne_true hAbsolute]
    split
    · rfl
    · exact hRelative

/- A script below a directory is the directory's path and more names. -/
theorem exists_of_mem_scriptsAt
    (hDirectory : tree.isDirectory path = true)
    {file : ScriptFile}
    (hFile : file ∈ scriptsAt tree spelled path) :
    file.path ∈ tree.below path ∧
      Path.endsIn scriptEnding file.path = true ∧
      ∃ names,
        file.path = path ++ names ∧
          file.name =
            if Path.isAbsolute spelled then
              "/" ++ Path.toText (Path.names spelled ++ names)
            else Path.toText (Path.names spelled ++ names) := by
  rw [scriptsAt, if_pos hDirectory] at hFile
  rcases List.mem_map.mp hFile with ⟨found, hFound, rfl⟩
  rcases List.mem_filter.mp hFound with ⟨hBelow, hEnds⟩
  rcases (FileTree.mem_below hBelow).2.1 with ⟨names, rfl⟩
  exact ⟨hBelow, hEnds, names, rfl, by rw [List.drop_left]⟩

/- A script is written where it was read. -/
theorem target_script
    (hProper : tree.isProper = true)
    (hThere : tree.locate? spelled = some path)
    {file : ScriptFile}
    (hFile : file ∈ scriptsAt tree spelled path)
    {found : Path}
    (hTarget : tree.target file.name = .ok found) :
    found = file.path := by
  by_cases hDirectory : tree.isDirectory path = true
  · rcases exists_of_mem_scriptsAt hDirectory hFile with
      ⟨hBelow, _, names, hPath, hName⟩
    have hNames : ∀ name ∈ names, Path.isName name = true := by
      intro name hMem
      apply FileTree.isName_of_mem_below hProper hBelow
      rw [hPath]
      exact List.mem_append_right path hMem
    have hSteps :
        ∀ name ∈ Path.names spelled ++ names,
          Path.isStep name = true := by
      intro name hMem
      rcases List.mem_append.mp hMem with hFront | hBack
      · exact Path.isStep_of_mem_names hFront
      · exact Path.isStep_of_isName (hNames name hBack)
    have hOrigin :
        Path.isAbsolute file.name = Path.isAbsolute spelled := by
      rw [hName]
      by_cases hAbsolute : Path.isAbsolute spelled = true
      · rw [if_pos hAbsolute, hAbsolute]
        rfl
      · rw [if_neg hAbsolute, Path.isAbsolute_toText hSteps,
          eq_false_of_ne_true hAbsolute]
    have hSpelled :
        Path.names file.name = Path.names spelled ++ names := by
      rw [hName]
      split
      · rw [Path.names_stroke, Path.names_toText hSteps]
      · exact Path.names_toText hSteps
    rw [hPath]
    exact
      FileTree.target_below hThere hOrigin hSpelled hNames hTarget
  · rw [scriptsAt, if_neg hDirectory, List.mem_singleton] at hFile
    cases hFile
    have hPath :=
      FileTree.target_below hThere (isAbsolute_tidy spelled)
        ((names_tidy spelled).trans (List.append_nil _).symm)
        (fun _ hMem => absurd hMem List.not_mem_nil) hTarget
    rwa [List.append_nil] at hPath

------------------------------------------------------------
-- Paths
------------------------------------------------------------

theorem isScriptUnder_of_mem
    (hThere : tree.locate? spelled = some path)
    {file : ScriptFile}
    (hFile : file ∈ scriptsAt tree spelled path) :
    IsScriptUnder tree spelled file.path := by
  refine ⟨path, hThere, ?_⟩
  by_cases hDirectory : tree.isDirectory path = true
  · rw [if_pos hDirectory]
    rcases exists_of_mem_scriptsAt hDirectory hFile with
      ⟨hBelow, hEnds, _⟩
    have hLonger := (FileTree.mem_below hBelow).2
    refine ⟨hLonger.1, ?_, hEnds⟩
    intro hEqual
    exact absurd hLonger.2 (by rw [← hEqual]; exact Nat.lt_irrefl _)
  · rw [if_neg hDirectory]
    rw [scriptsAt, if_neg hDirectory, List.mem_singleton] at hFile
    rw [hFile]

/- A script is no file of settings. -/
theorem isSettings_of_endsIn
    {path : Path}
    (hEnds : Path.endsIn scriptEnding path = true) :
    Settings.isSettings path = false := by
  rw [Settings.isSettings, decide_eq_false_iff_not]
  intro hLast
  rw [Path.endsIn, hLast] at hEnds
  exact absurd hEnds (by decide)

theorem isSettings_script
    (hDirectory : tree.isDirectory path = true)
    {file : ScriptFile}
    (hFile : file ∈ scriptsAt tree spelled path) :
    Settings.isSettings file.path = false :=
  isSettings_of_endsIn
    (exists_of_mem_scriptsAt hDirectory hFile).2.1

/-
  No script stands before itself or is a file of settings that
  stands before a script.
-/
theorem apart_scriptsAt
    (tree : FileTree)
    (spelled : Text)
    (path : Path) :
    (scriptsAt tree spelled path).Pairwise fun first later =>
      first.path ≠ later.path ∧
        Settings.isSettings first.path = false := by
  by_cases hDirectory : tree.isDirectory path = true
  · rw [scriptsAt, if_pos hDirectory, List.pairwise_map]
    have hNodup :=
      (FileTree.nodup_below tree path).filter
        (Path.endsIn scriptEnding)
    apply List.Pairwise.imp_of_mem ?_ hNodup
    intro first later hFirst _ hApart
    exact ⟨hApart, isSettings_of_endsIn (List.mem_filter.mp hFirst).2⟩
  · rw [scriptsAt, if_neg hDirectory]
    exact List.pairwise_singleton _ _

end Command

end ExperimentScript
