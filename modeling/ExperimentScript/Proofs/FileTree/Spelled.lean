import ExperimentScript.FileTree

/-
  Spelled paths and the files they lead to.

  A path is spelled by its names with strokes between them,
  and the names are found again in that text. Names that are
  each the name of a file lead one step down, so a file below
  a directory is found by what is spelled for the directory
  and the names from there on.

  Key definitions include:
    * `ExperimentScript.Path.isStep`
    * `ExperimentScript.Path.isName`
    * `ExperimentScript.FileTree.isProper`

  Main declarations:
    * `ExperimentScript.Path.names_toText`
    * `ExperimentScript.FileTree.follow_append`
    * `ExperimentScript.FileTree.target_below`
    * `ExperimentScript.FileTree.mem_below`
    * `ExperimentScript.FileTree.nodup_below`
-/

namespace ExperimentScript

------------------------------------------------------------
-- Parts Between Marks
------------------------------------------------------------

namespace Text

variable {mark : CodePoint}

/- The parts of a text are those of a list. -/
theorem splitOn_eq (text : Text) :
    splitOn mark text = List.splitOn mark text := by
  induction text with
  | nil => rfl
  | cons c text ih =>
      rw [splitOn, ih, List.splitOn_cons_eq_if_modifyHead]
      cases hParts : List.splitOn mark text with
      | nil => exact absurd hParts (List.splitOn_ne_nil mark text)
      | cons part parts => simp

/- A mark is in none of the parts between marks. -/
theorem not_mem_of_mem_splitOn
    {text part : Text}
    (hPart : part ∈ splitOn mark text) :
    mark ∉ part := by
  rw [splitOn_eq] at hPart
  induction text generalizing part with
  | nil =>
      rw [List.splitOn_nil, List.mem_singleton] at hPart
      rw [hPart]
      exact List.not_mem_nil
  | cons c text ih =>
      rw [List.splitOn_cons_eq_if_modifyHead] at hPart
      cases hParts : List.splitOn mark text with
      | nil => exact absurd hParts (List.splitOn_ne_nil mark text)
      | cons first parts =>
          rw [hParts] at hPart ih
          split at hPart
          · rcases List.mem_cons.mp hPart with rfl | hPart
            · exact List.not_mem_nil
            · exact ih hPart
          · rename_i hMark
            rw [beq_iff_eq] at hMark
            rw [List.modifyHead_cons, List.mem_cons] at hPart
            rcases hPart with rfl | hPart
            · rw [List.mem_cons, not_or]
              exact ⟨Ne.symm hMark, ih List.mem_cons_self⟩
            · exact ih (List.mem_cons_of_mem first hPart)

end Text

------------------------------------------------------------
-- Names
------------------------------------------------------------

namespace Path

/- Whether a text is one of the names that a spelled path can have. -/
def isStep (name : Text) : Bool :=
  !name.isEmpty && name != "." && !name.contains (.char '/')

/- Whether a text can be the name of a file or directory. -/
def isName (name : Text) : Bool :=
  isStep name && name != ".."

variable {name spelled : Text} {path : Path}

theorem isStep_of_mem_names (hName : name ∈ names spelled) :
    isStep name = true := by
  rw [names, List.mem_filter] at hName
  have hStroke := Text.not_mem_of_mem_splitOn hName.1
  simpa [isStep, hStroke] using hName.2

theorem isStep_of_isName (hName : isName name = true) :
    isStep name = true :=
  (Bool.and_eq_true_iff.mp hName).1

theorem not_mem_of_isStep (hStep : isStep name = true) :
    CodePoint.char '/' ∉ name := by
  simp only [isStep, Bool.and_eq_true, Bool.not_eq_true',
    List.contains_eq_mem, decide_eq_false_iff_not] at hStep
  exact hStep.2

/- The names of a path are found again in its text. -/
theorem names_toText
    (hPath : ∀ name ∈ path, isStep name = true) :
    names (toText path) = path := by
  cases path with
  | nil => rfl
  | cons name path =>
      have hParts :
          Text.splitOn '/' (toText (name :: path)) = name :: path := by
        rw [Text.splitOn_eq]
        exact List.splitOn_intercalate _
          (fun part hPart => not_mem_of_isStep (hPath part hPart))
          (List.cons_ne_nil name path)
      rw [names, hParts, List.filter_eq_self]
      intro part hPart
      have hStep := hPath part hPart
      rw [isStep, Bool.and_eq_true] at hStep
      exact hStep.1

/- A stroke before a text adds no name. -/
theorem names_stroke (spelled : Text) :
    names ("/" ++ spelled) = names spelled := by
  have hParts :
      Text.splitOn '/' ("/" ++ spelled) =
        [] :: Text.splitOn '/' spelled := by
    rw [Text.splitOn_eq, Text.splitOn_eq]
    exact List.splitOn_append_cons_self_of_not_mem
      List.not_mem_nil spelled
  rw [names, hParts]
  rfl

/- The text of a path does not begin at the top. -/
theorem isAbsolute_toText
    (hPath : ∀ name ∈ path, isStep name = true) :
    isAbsolute (toText path) = false := by
  cases path with
  | nil => rfl
  | cons name path =>
      have hStep := hPath name List.mem_cons_self
      cases name with
      | nil => exact absurd hStep (by decide)
      | cons c name =>
          have hStroke := not_mem_of_isStep hStep
          rw [List.mem_cons, not_or] at hStroke
          cases path <;>
            simp [toText, Text.join, isAbsolute, Ne.symm hStroke.1]

end Path

------------------------------------------------------------
-- Following Names
------------------------------------------------------------

namespace FileTree

/- Whether every name on the way to a file is a name. -/
def isProper (tree : FileTree) : Bool :=
  tree.files.all fun entry => entry.1.all Path.isName

variable (tree : FileTree)

/- Names are followed one part after the other. -/
theorem follow_append
    (path : Path)
    (front back : List Text) :
    tree.follow path (front ++ back) =
      tree.follow path front >>= fun middle =>
        tree.follow middle back := by
  induction front generalizing path with
  | nil => rfl
  | cons name front ih =>
      rw [List.cons_append, follow, follow]
      by_cases hDirectory : tree.isDirectory path = true
      · rw [if_pos hDirectory, if_pos hDirectory, ih, ih]
        repeat' split
        all_goals rfl
      · rw [if_neg hDirectory, if_neg hDirectory]
        split <;> rfl

variable {tree}
variable {path found : Path} {names : List Text}

/- Names that are passed over can be left out. -/
theorem follow_filter
    (hFollow : tree.follow path names = .ok found) :
    tree.follow path
        (names.filter fun name =>
          !name.isEmpty && name != Text.ofString ".") =
      .ok found := by
  induction names generalizing path with
  | nil => exact hFollow
  | cons name names ih =>
      rw [follow] at hFollow
      have hKept :
          (!name.isEmpty && name != Text.ofString ".") =
            !(name.isEmpty || decide (name = Text.ofString ".")) := by
        rw [Bool.not_or, Bool.eq_iff_iff]
        simp
      rw [List.filter_cons, hKept]
      by_cases hDirectory : tree.isDirectory path = true
      · rw [if_pos hDirectory] at hFollow
        by_cases hPass : (name.isEmpty || name = ".") = true
        · rw [if_pos hPass] at hFollow
          rw [hPass]
          exact ih hFollow
        · rw [if_neg hPass] at hFollow
          rw [if_pos (by simpa using hPass), follow, if_pos hDirectory,
            if_neg hPass]
          by_cases hLong : Path.isOverlong name = true
          · rw [if_pos hLong] at hFollow
            cases hFollow
          · rw [if_neg hLong] at hFollow ⊢
            exact ih hFollow
      · rw [if_neg hDirectory] at hFollow
        split at hFollow <;> cases hFollow

/- Names of files lead one step down each. -/
theorem eq_of_follow
    (hNames : ∀ name ∈ names, Path.isName name = true)
    (hFollow : tree.follow path names = .ok found) :
    found = path ++ names := by
  induction names generalizing path with
  | nil =>
      cases hFollow
      exact (List.append_nil found).symm
  | cons name names ih =>
      rw [List.forall_mem_cons] at hNames
      rw [follow] at hFollow
      have hName := hNames.1
      simp only [Path.isName, Path.isStep, Bool.and_eq_true,
        Bool.not_eq_true', bne_iff_ne] at hName
      rcases hName with ⟨⟨⟨hSome, hDot⟩, _⟩, hDots⟩
      have hTaken : (name.isEmpty || decide (name = ".")) = false := by
        rw [hSome, decide_eq_false hDot]
        rfl
      split at hFollow
      · rw [hTaken, if_neg Bool.false_ne_true] at hFollow
        split at hFollow
        · cases hFollow
        · have hStep : step path name = path ++ [name] :=
            if_neg hDots
          rw [hStep] at hFollow
          rw [ih hNames.2 hFollow, List.append_assoc]
          rfl
      · split at hFollow <;> cases hFollow

/- The names of what is there lead to it. -/
theorem follow_of_locate?
    {spelled : Text}
    (hThere : tree.locate? spelled = some path) :
    tree.follow (tree.origin spelled) (Path.names spelled) =
      .ok path := by
  rw [locate?] at hThere
  split at hThere
  · cases hThere
  · cases hFollow :
        tree.follow (tree.origin spelled) (spelled.splitOn '/') with
    | error error =>
        rw [hFollow] at hThere
        cases hThere
    | ok found =>
        rw [hFollow] at hThere
        rcases Option.ite_none_right_eq_some.mp hThere with ⟨_, hFound⟩
        cases hFound
        exact follow_filter hFollow

/- A path at which a file can be written is where its names lead. -/
theorem follow_of_target
    {spelled : Text}
    (hTarget : tree.target spelled = .ok path) :
    tree.follow (tree.origin spelled) (Path.names spelled) =
      .ok path := by
  rw [target] at hTarget
  by_cases hLong : Path.isTooLong (Path.tidy spelled) = true
  · rw [if_pos hLong] at hTarget
    cases hTarget
  · rw [if_neg hLong] at hTarget
    cases hFollow :
        tree.follow (tree.origin spelled) (Path.names spelled) with
    | error error =>
        rw [hFollow] at hTarget
        cases hTarget
    | ok found =>
        rw [hFollow] at hTarget
        simp only [bind, Except.bind, pure, Except.pure] at hTarget
        split at hTarget <;> cases hTarget
        rfl

/-
  A file is written at the path of a directory and the names
  from there on, if that is what is spelled for it.
-/
theorem target_below
    {spelled name : Text}
    {directory : Path}
    {below : List Text}
    (hThere : tree.locate? spelled = some directory)
    (hOrigin : Path.isAbsolute name = Path.isAbsolute spelled)
    (hNames : Path.names name = Path.names spelled ++ below)
    (hBelow : ∀ part ∈ below, Path.isName part = true)
    (hTarget : tree.target name = .ok path) :
    path = directory ++ below := by
  have hFollow := follow_of_target hTarget
  have hStart : tree.origin name = tree.origin spelled := by
    rw [origin, origin, hOrigin]
  rw [hNames, hStart, follow_append, follow_of_locate? hThere] at hFollow
  exact eq_of_follow hBelow hFollow

------------------------------------------------------------
-- Files Below A Directory
------------------------------------------------------------

section Below

variable {directory : Path}

/- What is below a directory is on the way to a file and goes on from there. -/
theorem mem_below
    (hPath : path ∈ tree.below directory) :
    (∃ entry ∈ tree.files, path ∈ waypoints entry.1) ∧
      directory <+: path ∧ directory.length < path.length := by
  rw [below, List.mem_mergeSort, List.mem_eraseDups,
    List.mem_flatMap] at hPath
  rcases hPath with ⟨entry, hEntry, hPath⟩
  rw [List.mem_filter, Bool.and_eq_true, List.isPrefixOf_iff_prefix,
    decide_eq_true_eq] at hPath
  exact ⟨⟨entry, hEntry, hPath.1⟩, hPath.2⟩

theorem isName_of_mem_below
    (hProper : tree.isProper = true)
    (hPath : path ∈ tree.below directory)
    {name : Text}
    (hName : name ∈ path) :
    Path.isName name = true := by
  rcases (mem_below hPath).1 with ⟨entry, hEntry, hWay⟩
  rcases List.mem_map.mp hWay with ⟨count, _, rfl⟩
  have hNames := List.all_eq_true.mp hProper entry hEntry
  exact List.all_eq_true.mp hNames name (List.mem_of_mem_take hName)

/- A list without what was found before has each element once. -/
theorem nodup_eraseDups {α : Type} [BEq α] [LawfulBEq α] :
    ∀ items : List α, items.eraseDups.Nodup
  | [] => List.nodup_nil
  | item :: items => by
      rw [List.eraseDups_cons, List.nodup_cons]
      constructor
      · intro hAgain
        rw [List.mem_eraseDups, List.mem_filter] at hAgain
        simp at hAgain
      · exact nodup_eraseDups (items.filter fun other => !other == item)
termination_by items => items.length
decreasing_by
  exact Nat.lt_succ_of_le (List.length_filter_le _ items)

/- Nothing below a directory is listed twice. -/
theorem nodup_below (tree : FileTree) (directory : Path) :
    (tree.below directory).Nodup :=
  (List.mergeSort_perm _ Path.le).nodup_iff.mpr (nodup_eraseDups _)

end Below

end FileTree

end ExperimentScript
