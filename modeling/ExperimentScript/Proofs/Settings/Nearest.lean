import Mathlib.Data.List.Infix
import ExperimentScript.Host
import ExperimentScript.Settings

/-
  Settings come from the nearest directory that has them.

  The search from a path looks at its directory and at those
  above it, and stops at the first with an entry of the name.
  So two trees with the same entries between the start and
  that directory, and the same contents of that one file,
  give the same settings, whatever else is in them. Where
  nothing can be looked up at the path there is no search.

  Key definitions include:
    * `ExperimentScript.Settings.Holds`
    * `ExperimentScript.Settings.IsNearest`
    * `ExperimentScript.Settings.Searchable`
    * `ExperimentScript.Settings.Agree`

  Main declarations:
    * `ExperimentScript.Settings.findUp?_spec`
    * `ExperimentScript.Settings.Agree.around_eq`
    * `ExperimentScript.Settings.locate_nearest`
-/

namespace ExperimentScript

namespace Settings

------------------------------------------------------------
-- The Nearest Directory
------------------------------------------------------------

/- A directory has an entry of the name, of whatever kind. -/
def Holds
    (tree : FileTree)
    (directory : Path) : Prop :=
  tree.contains (directory ++ [fileName]) = true

/-
  The deepest of the directories with such an entry, on the
  way from the top down to a given directory.
-/
structure IsNearest
    (tree : FileTree)
    (directory nearest : Path) : Prop where
  above : nearest <+: directory
  holds : Holds tree nearest
  deepest :
    ∀ other, other <+: directory → Holds tree other →
      other.length ≤ nearest.length

variable {tree other : FileTree}
variable {directory nearest : Path}

/- A directory that has the entry itself is the nearest. -/
theorem Holds.isNearest
    (hHolds : Holds tree directory) :
    IsNearest tree directory directory where
  above := List.prefix_refl directory
  holds := hHolds
  deepest _ hAbove _ := hAbove.length_le

namespace IsNearest

/- There is no more than one nearest directory. -/
theorem unique
    {second : Path}
    (hFirst : IsNearest tree directory nearest)
    (hSecond : IsNearest tree directory second) :
    nearest = second := by
  have hFront :=
    List.prefix_of_prefix_length_le hFirst.above hSecond.above
      (hSecond.deepest nearest hFirst.above hFirst.holds)
  exact
    hFront.eq_of_length_le
      (hFirst.deepest second hSecond.above hSecond.holds)

/- Every directory further down on the way has no entry. -/
theorem not_holds
    {below : Path}
    (hNearest : IsNearest tree directory nearest)
    (hAbove : below <+: directory)
    (hBelow : nearest.length < below.length) :
    ¬ Holds tree below := fun hHolds =>
  absurd (hNearest.deepest below hAbove hHolds)
    (Nat.not_le.mpr hBelow)

/- Below a directory without the entry nothing else is nearer. -/
theorem concat
    {name : Text}
    (hNot : ¬ Holds tree (directory ++ [name]))
    (hNearest : IsNearest tree directory nearest) :
    IsNearest tree (directory ++ [name]) nearest where
  above := hNearest.above.trans (List.prefix_append directory [name])
  holds := hNearest.holds
  deepest below hAbove hHolds := by
    rcases List.prefix_concat_iff.mp hAbove with rfl | hAbove
    · exact absurd hHolds hNot
    · exact hNearest.deepest below hAbove hHolds

end IsNearest

------------------------------------------------------------
-- Searching Upwards
------------------------------------------------------------

/- The entry of the nearest directory, or none where none has one. -/
def Finds
    (tree : FileTree)
    (directory : Path) : Option Path → Prop
  | some file =>
    ∃ nearest,
      IsNearest tree directory nearest ∧
        file = nearest ++ [fileName]
  | none =>
    ∀ above, above <+: directory → ¬ Holds tree above

/- The search upwards from a directory finds the nearest entry. -/
theorem findUp?_spec
    (tree : FileTree)
    (directory : Path) :
    Finds tree directory (findUp? tree directory.reverse) := by
  induction directory using List.reverseRecOn with
  | nil =>
      rw [List.reverse_nil, findUp?]
      split
      · rename_i hHolds
        exact ⟨[], Holds.isNearest hHolds, rfl⟩
      · rename_i hNot
        intro above hAbove
        rw [List.prefix_nil.mp hAbove]
        exact hNot
  | append_singleton directory name ih =>
      rw [List.reverse_append, List.reverse_singleton,
        List.singleton_append, findUp?, List.reverse_cons,
        List.reverse_reverse]
      split
      · rename_i hHolds
        exact ⟨_, Holds.isNearest hHolds, rfl⟩
      · rename_i hNot
        cases hFound : findUp? tree directory.reverse with
        | none =>
            rw [hFound] at ih
            intro above hAbove
            rcases List.prefix_concat_iff.mp hAbove with
              rfl | hAbove
            · exact hNot
            · exact ih above hAbove
        | some file =>
            rw [hFound] at ih
            rcases ih with ⟨nearest, hNearest, hFile⟩
            exact ⟨nearest, hNearest.concat hNot, hFile⟩

/- What is found for a directory is found in one way only. -/
theorem Finds.unique
    {first second : Option Path}
    (hFirst : Finds tree directory first)
    (hSecond : Finds tree directory second) :
    first = second := by
  cases first with
  | none =>
      cases second with
      | none => rfl
      | some file =>
          rcases hSecond with ⟨nearest, hNearest, -⟩
          exact absurd hNearest.holds (hFirst nearest hNearest.above)
  | some file =>
      rcases hFirst with ⟨nearest, hNearest, rfl⟩
      cases second with
      | none =>
          exact absurd hNearest.holds (hSecond nearest hNearest.above)
      | some other =>
          rcases hSecond with ⟨second, hSecond, rfl⟩
          rw [hNearest.unique hSecond]

theorem findUp?_eq_iff {found : Option Path} :
    findUp? tree directory.reverse = found ↔
      Finds tree directory found := by
  constructor
  · rintro rfl
    exact findUp?_spec tree directory
  · exact (findUp?_spec tree directory).unique

------------------------------------------------------------
-- Searching From A Path
------------------------------------------------------------

/-
  The directory in which the search for a spelled path begins:
  that of a file, and of all else the path itself.
-/
def startDirectory
    (tree : FileTree)
    (spelled : Text) : Path :=
  let path := tree.resolve spelled
  if tree.isFile path then path.dropLast else path

/-
  Looking at a path is possible: it is not too long, and no
  directory on the way to it is asked for an overlong name.
-/
def Reachable
    (tree : FileTree)
    (path : Path) : Prop :=
  Path.isTooLong (Path.fromTop path) = false ∧
    tree.follow [] path ≠ .error .nameTooLong

/-
  A search can be made for a spelled path: each of its names
  has a spelling in bytes, and looking is possible at the path
  and at the entry that the search begins with.
-/
structure Searchable
    (tree : FileTree)
    (spelled : Text) : Prop where
  named : ∀ name ∈ Path.names spelled, Path.fault? name = none
  path : Reachable tree (tree.resolve spelled)
  entry : Reachable tree (startDirectory tree spelled ++ [fileName])

theorem lookUp_of_reachable
    {path : Path}
    (hReach : Reachable tree path) :
    tree.lookUp path = .ok () := by
  simp only [FileTree.lookUp, hReach.1, if_neg Bool.false_ne_true]
  split
  · rename_i hLong
    exact absurd hLong hReach.2
  · rfl

theorem lookUp_of_not_reachable
    {path : Path}
    (hReach : ¬ Reachable tree path) :
    tree.lookUp path = .error .nameTooLong := by
  rw [FileTree.lookUp]
  cases hLong : Path.isTooLong (Path.fromTop path) with
  | true => exact if_pos rfl
  | false =>
      have hFollow : tree.follow [] path = .error .nameTooLong :=
        not_ne_iff.mp fun hOther => hReach ⟨hLong, hOther⟩
      rw [if_neg Bool.false_ne_true, hFollow]

variable {spelled : Text}

/- What a spelled path cannot be found for is a fault of a name. -/
theorem startPath_cases
    (tree : FileTree)
    (spelled : Text) :
    ((∀ name ∈ Path.names spelled, Path.fault? name = none) ∧
      tree.startPath spelled = .ok (tree.resolve spelled)) ∨
    ((¬ ∀ name ∈ Path.names spelled, Path.fault? name = none) ∧
      ∃ error,
        (error = .badPath ∨ error = .notEncodable) ∧
          tree.startPath spelled = .error error) := by
  rw [FileTree.startPath]
  cases hFault : (Path.names spelled).findSome? Path.fault? with
  | none =>
      exact .inl ⟨List.findSome?_eq_none_iff.mp hFault, rfl⟩
  | some error =>
      rcases List.exists_of_findSome?_eq_some hFault with
        ⟨name, hName, hError⟩
      have hKind : error = .badPath ∨ error = .notEncodable := by
        rw [Path.fault?] at hError
        split at hError
        · exact .inr (Option.some.inj hError).symm
        · split at hError
          · exact .inl (Option.some.inj hError).symm
          · cases hError
      refine .inr ⟨fun hNone => ?_, error, hKind, rfl⟩
      rw [hNone name hName] at hError
      cases hError

/- The search for a spelled path. -/
def search
    (tree : FileTree)
    (spelled : Text) :
    Except FileError (Option Path) := do
  find tree (← tree.startPath spelled)

/- Where a search is possible, it is one upwards from the directory. -/
theorem search_of_searchable
    (hSearch : Searchable tree spelled) :
    search tree spelled =
      .ok (findUp? tree (startDirectory tree spelled).reverse) := by
  rcases startPath_cases tree spelled with
    ⟨_, hStart⟩ | ⟨hNamed, _⟩
  · have hEntry := lookUp_of_reachable hSearch.entry
    rw [startDirectory] at hEntry
    rw [search, hStart]
    simp only [bind, Except.bind, find,
      lookUp_of_reachable hSearch.path, hEntry]
    rfl
  · exact absurd hSearch.named hNamed

/- Where none is possible, a name is at fault or a length. -/
theorem search_of_not_searchable
    (hSearch : ¬ Searchable tree spelled) :
    search tree spelled =
      tree.startPath spelled >>= fun _ => .error .nameTooLong := by
  rw [search]
  rcases startPath_cases tree spelled with
    ⟨hNamed, hStart⟩ | ⟨_, error, _, hStart⟩
  · rw [hStart]
    by_cases hPath : Reachable tree (tree.resolve spelled)
    · have hEntry :=
        lookUp_of_not_reachable fun hEntry =>
          hSearch ⟨hNamed, hPath, hEntry⟩
      rw [startDirectory] at hEntry
      simp only [bind, Except.bind, find, lookUp_of_reachable hPath,
        hEntry]
    · simp only [bind, Except.bind, find,
        lookUp_of_not_reachable hPath]
  · rw [hStart]
    rfl

theorem exists_of_not_searchable
    (hSearch : ¬ Searchable tree spelled) :
    ∃ error,
      (error = .badPath ∨ error = .notEncodable ∨
          error = .nameTooLong) ∧
        search tree spelled = .error error := by
  rw [search_of_not_searchable hSearch]
  rcases startPath_cases tree spelled with
    ⟨_, hStart⟩ | ⟨_, error, hKind, hStart⟩
  · rw [hStart]
    exact ⟨_, .inr (.inr rfl), rfl⟩
  · rw [hStart]
    rcases hKind with rfl | rfl
    · exact ⟨_, .inl rfl, rfl⟩
    · exact ⟨_, .inr (.inl rfl), rfl⟩

/- What is located is what the search gives, if it gives anything. -/
theorem locate_eq
    (tree : FileTree)
    (spelled : Text) :
    locate tree spelled =
      search tree spelled >>= fun
        | some file => .ok file
        | none => .error .notFound := by
  rw [locate, search]
  cases tree.startPath spelled with
  | error error => rfl
  | ok path =>
      simp only [bind, Except.bind]
      cases find tree path with
      | error error => rfl
      | ok found => cases found <;> rfl

/- Where nothing is found, there are settings without a file. -/
theorem around_eq_search
    [Room]
    (tree : FileTree)
    (spelled : Text) :
    around tree spelled =
      (search tree spelled).mapError SettingsError.file >>= fun
        | some file => load tree file
        | none => .ok default := by
  rw [around, search]
  cases tree.startPath spelled with
  | error error => rfl
  | ok path =>
      simp only [Except.mapError, bind, Except.bind, nearest]
      cases find tree path with
      | error error => rfl
      | ok found => cases found <;> rfl

/- What is located is what is found in the search. -/
theorem locate_eq_ok_iff
    {file : Path}
    (hSearch : Searchable tree spelled) :
    locate tree spelled = .ok file ↔
      Finds tree (startDirectory tree spelled) (some file) := by
  rw [← findUp?_eq_iff, locate_eq, search_of_searchable hSearch]
  cases findUp? tree (startDirectory tree spelled).reverse with
  | none => exact iff_of_false nofun nofun
  | some found =>
      change Except.ok found = .ok file ↔ some found = some file
      rw [Except.ok.injEq, Option.some.injEq]

theorem locate_eq_notFound_iff
    (hSearch : Searchable tree spelled) :
    locate tree spelled = .error .notFound ↔
      Finds tree (startDirectory tree spelled) none := by
  rw [← findUp?_eq_iff, locate_eq, search_of_searchable hSearch]
  cases findUp? tree (startDirectory tree spelled).reverse with
  | none => exact iff_of_true rfl rfl
  | some found => exact iff_of_false nofun nofun

------------------------------------------------------------
-- Two Trees
------------------------------------------------------------

/-
  Two trees agree on what settings for a path depend on: where
  the path leads, whether a search can be made for it and a
  file is there, which directories between its own and the
  nearest have an entry, and what can be read from the entry of
  the nearest.
-/
structure Agree
    (tree other : FileTree)
    (spelled : Text) : Prop where
  start : tree.startPath spelled = other.startPath spelled
  searchable : Searchable tree spelled ↔ Searchable other spelled
  kind :
    tree.isFile (tree.resolve spelled) =
      other.isFile (other.resolve spelled)
  holds :
    ∀ directory, directory <+: startDirectory tree spelled →
      (∀ nearest,
        IsNearest tree (startDirectory tree spelled) nearest →
          nearest <+: directory) →
      (Holds tree directory ↔ Holds other directory)
  contents :
    ∀ nearest,
      IsNearest tree (startDirectory tree spelled) nearest →
        tree.readBytes (nearest ++ [fileName]) =
          other.readBytes (nearest ++ [fileName])

namespace Agree

variable (hAgree : Agree tree other spelled)
include hAgree

/- A directory without a nearer one has an entry in both trees or in none. -/
theorem holds_iff
    (hAbove : directory <+: startDirectory tree spelled)
    (hNearest :
      ∀ nearest,
        IsNearest tree (startDirectory tree spelled) nearest →
          nearest.length ≤ directory.length) :
    Holds tree directory ↔ Holds other directory :=
  hAgree.holds directory hAbove fun nearest hIs =>
    List.prefix_of_prefix_length_le hIs.above hAbove
      (hNearest nearest hIs)

/- What is found in one of the trees is found in the other one. -/
theorem finds
    {found : Option Path}
    (hFinds : Finds tree (startDirectory tree spelled) found) :
    Finds other (startDirectory tree spelled) found := by
  cases found with
  | none =>
      intro above hAbove hHolds
      refine hFinds above hAbove ((hAgree.holds_iff hAbove ?_).mpr hHolds)
      intro nearest hNearest
      exact absurd hNearest.holds (hFinds nearest hNearest.above)
  | some file =>
      rcases hFinds with ⟨nearest, hNearest, rfl⟩
      have hNotAbove (below : Path)
          (hLength : nearest.length ≤ below.length)
          (second : Path)
          (hSecond :
            IsNearest tree (startDirectory tree spelled) second) :
          second.length ≤ below.length := by
        rwa [hSecond.unique hNearest]
      refine
        ⟨nearest,
          { above := hNearest.above
            holds :=
              (hAgree.holds_iff hNearest.above
                (hNotAbove nearest (Nat.le_refl _))).mp
                hNearest.holds
            deepest := ?_ },
          rfl⟩
      intro below hAbove hHolds
      by_contra hDeeper
      rw [Nat.not_le] at hDeeper
      exact hNearest.not_holds hAbove hDeeper
        ((hAgree.holds_iff hAbove
          (hNotAbove below hDeeper.le)).mpr hHolds)

/- The search begins in the same directory, if it begins. -/
theorem startDirectory_eq
    (hSearch : Searchable tree spelled) :
    startDirectory other spelled = startDirectory tree spelled := by
  have hStart := hAgree.start
  rcases startPath_cases tree spelled with
    ⟨_, hPath⟩ | ⟨hNamed, _⟩
  · rcases startPath_cases other spelled with
      ⟨_, hOther⟩ | ⟨hNamed, _⟩
    · rw [hPath, hOther, Except.ok.injEq] at hStart
      rw [startDirectory, startDirectory, ← hAgree.kind, ← hStart]
    · exact absurd hSearch.named hNamed
  · exact absurd hSearch.named hNamed

/- The settings are the same in both trees. -/
theorem around_eq [Room] :
    around tree spelled = around other spelled := by
  rw [around_eq_search, around_eq_search]
  by_cases hSearch : Searchable tree spelled
  · have hDirectory := hAgree.startDirectory_eq hSearch
    have hOther := hAgree.searchable.mp hSearch
    have hSpec := findUp?_spec tree (startDirectory tree spelled)
    have hFound :=
      (hAgree.finds hSpec).unique
        (findUp?_spec other (startDirectory tree spelled))
    rw [search_of_searchable hSearch, search_of_searchable hOther,
      hDirectory, ← hFound]
    cases hFile :
        findUp? tree (startDirectory tree spelled).reverse with
    | none => rfl
    | some file =>
        rw [hFile] at hSpec
        rcases hSpec with ⟨nearest, hNearest, rfl⟩
        simp only [Except.mapError, bind, Except.bind, load,
          FileTree.readRaw, hAgree.contents nearest hNearest]
  · have hOther := mt hAgree.searchable.mpr hSearch
    rcases exists_of_not_searchable hSearch with ⟨error, _, hError⟩
    rw [search_of_not_searchable hOther, ← hAgree.start,
      ← search_of_not_searchable hSearch, hError]
    rfl

end Agree

/-
  A search for settings finds the entry of the nearest
  directory, fails where there is none, and is not even begun
  where nothing can be looked up; and the settings are those of
  every tree that agrees on the way to that entry.
-/
theorem locate_nearest
    [Room]
    (tree : FileTree)
    (spelled : Text) :
    (∀ file,
      locate tree spelled = .ok file ↔
        Searchable tree spelled ∧
          ∃ nearest,
            IsNearest tree (startDirectory tree spelled) nearest ∧
              file = nearest ++ [fileName]) ∧
      (locate tree spelled = .error .notFound ↔
        Searchable tree spelled ∧
          ∀ directory,
            directory <+: startDirectory tree spelled →
              ¬ Holds tree directory) ∧
      (¬ Searchable tree spelled →
        ∃ error,
          (error = .badPath ∨ error = .notEncodable ∨
              error = .nameTooLong) ∧
            locate tree spelled = .error error ∧
            around tree spelled = .error (.file error)) ∧
      ∀ other, Agree tree other spelled →
        around tree spelled = around other spelled := by
  by_cases hSearch : Searchable tree spelled
  · refine
      ⟨fun file => ?_, ?_, absurd hSearch,
        fun other hAgree => hAgree.around_eq⟩
    · rw [and_iff_right hSearch]
      exact locate_eq_ok_iff hSearch
    · rw [and_iff_right hSearch]
      exact locate_eq_notFound_iff hSearch
  · rcases exists_of_not_searchable hSearch with
      ⟨error, hKind, hError⟩
    have hLocate : locate tree spelled = .error error := by
      rw [locate_eq, hError]
      rfl
    have hAround : around tree spelled = .error (.file error) := by
      rw [around_eq_search, hError]
      rfl
    refine
      ⟨fun file => ?_, ?_,
        fun _ => ⟨error, hKind, hLocate, hAround⟩,
        fun other hAgree => hAgree.around_eq⟩
    · rw [hLocate]
      exact iff_of_false nofun fun hFile => hSearch hFile.1
    · rw [hLocate]
      refine iff_of_false ?_ fun hNone => hSearch hNone.1
      rcases hKind with rfl | rfl | rfl <;> exact nofun

/-
  Where a name is too long for any directory, nothing can be
  looked up, and it is not found out that there is no entry.
-/
theorem locate_overlong :
    ¬ (locate ⟨[], []⟩ (Text.replicate 256 "a") = .error .notFound ↔
        ∀ directory,
          directory <+:
              startDirectory ⟨[], []⟩ (Text.replicate 256 "a") →
            ¬ Holds ⟨[], []⟩ directory) := by
  have hResolve :
      FileTree.resolve ⟨[], []⟩ (Text.replicate 256 "a") =
        [Text.replicate 256 "a"] := by
    decide +kernel
  have hName :
      ((Text.replicate 256 "a").isEmpty ||
          decide (Text.replicate 256 "a" = ".")) = false ∧
        Path.isOverlong (Text.replicate 256 "a") = true := by
    decide +kernel
  have hSearch :
      ¬ Searchable ⟨[], []⟩ (Text.replicate 256 "a") := by
    intro hSearch
    apply hSearch.path.2
    have hTop : FileTree.isDirectory ⟨[], []⟩ [] = true := rfl
    rw [hResolve, FileTree.follow, if_pos hTop, hName.1,
      if_neg Bool.false_ne_true, if_pos hName.2]
  have hNone (directory : Path) : ¬ Holds ⟨[], []⟩ directory := by
    cases directory with
    | nil => exact Bool.false_ne_true
    | cons name directory => exact Bool.false_ne_true
  rcases exists_of_not_searchable hSearch with
    ⟨error, hKind, hError⟩
  intro hClaim
  have hFound := hClaim.mpr fun directory _ => hNone directory
  rw [locate_eq, hError] at hFound
  rcases hKind with rfl | rfl | rfl <;> cases hFound

/- An entry beside a directory with a script. -/
def sparse : FileTree :=
  ⟨[],
    [(["a", "planout.toml"], "[output]\nindent = 8\n".toUTF8),
      (["a", "b", "x.planout"], "x;".toUTF8)]⟩

/- The same with entries above it, beside it and below it. -/
def crowded : FileTree :=
  ⟨[],
    [(["planout.toml"], "[output".toUTF8),
      (["a", "planout.toml"], "[output]\nindent = 8\n".toUTF8),
      (["a", "b", "x.planout"], "y;".toUTF8),
      (["a", "b", "c", "planout.toml"], "[output".toUTF8),
      (["d", "planout.toml"], "[output".toUTF8)]⟩

/- The entry in the middle is found, and the others do not matter. -/
theorem locate_nearest_crowded :
    locate sparse "a/b/x.planout" =
        .ok [("a" : Text), "planout.toml"] ∧
      around sparse "a/b/x.planout" =
        around crowded "a/b/x.planout" ∧
      (around crowded "a/b/x.planout").toOption.map
          (fun settings => settings.outputIndent.toInt?) =
        some (some 8) := by
  have hDirectory :
      startDirectory sparse "a/b/x.planout" =
        [("a" : Text), "b"] := by
    decide +kernel
  have hHolds :
      ∀ directory ∈ List.inits [("a" : Text), "b"],
        sparse.contains (directory ++ [fileName]) =
            decide (directory = [("a" : Text)]) ∧
          crowded.contains (directory ++ [fileName]) =
            decide (directory.length < 2) := by
    decide +kernel
  have hNearest :
      IsNearest sparse [("a" : Text), "b"] [("a" : Text)] :=
    { above := ⟨[("b" : Text)], rfl⟩
      holds := (hHolds [("a" : Text)] (by decide)).1
      deepest := by
        intro directory hAbove hHere
        have hEntries :=
          hHolds directory ((List.mem_inits _ _).mpr hAbove)
        rw [Holds, hEntries.1, decide_eq_true_eq] at hHere
        rw [hHere] }
  have hSearch : Searchable sparse "a/b/x.planout" :=
    { named := by decide +kernel
      path := ⟨by decide +kernel, by decide +kernel⟩
      entry := ⟨by decide +kernel, by decide +kernel⟩ }
  have hOther : Searchable crowded "a/b/x.planout" :=
    { named := by decide +kernel
      path := ⟨by decide +kernel, by decide +kernel⟩
      entry := ⟨by decide +kernel, by decide +kernel⟩ }
  have hAgree : Agree sparse crowded "a/b/x.planout" :=
    { start := rfl
      searchable := iff_of_true hSearch hOther
      kind := by decide +kernel
      holds := by
        rw [hDirectory]
        intro directory hAbove hNotAbove
        have hEntries :=
          hHolds directory ((List.mem_inits _ _).mpr hAbove)
        have hFront := hNotAbove _ hNearest
        rw [Holds, Holds, hEntries.1, hEntries.2, decide_eq_true_eq,
          decide_eq_true_eq]
        constructor
        · rintro rfl
          exact Nat.one_lt_two
        · intro hShort
          exact (hFront.eq_of_length_le (Nat.le_of_lt_succ hShort)).symm
      contents := by
        rw [hDirectory]
        intro nearest hIs
        rw [hIs.unique hNearest]
        rfl }
  rcases locate_nearest sparse "a/b/x.planout" with
    ⟨hFound, -, -, hSame⟩
  refine
    ⟨(hFound _).mpr ⟨hSearch, [("a" : Text)], ?_, rfl⟩,
      hSame _ hAgree, ?_⟩
  · rw [hDirectory]
    exact hNearest
  · decide +kernel

end Settings

end ExperimentScript
