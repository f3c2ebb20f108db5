import ExperimentScript.Proofs.FileTree.Spelled
import ExperimentScript.Proofs.Format.Plain
import ExperimentScript.Settings

/-
  What changes when a file is written.

  A file that is there is written without a name coming or
  going. Where the files are, what is below a directory and
  which settings hold for a path are the same afterwards, and
  every other file has the contents it had.

  Key definitions include:
    * `ExperimentScript.FileTree.paths`
    * `ExperimentScript.FileTree.SameNames`
    * `ExperimentScript.Settings.isSettings`

  Main declarations:
    * `ExperimentScript.FileTree.bytes?_put_of_ne`
    * `ExperimentScript.FileTree.sameNames_put`
    * `ExperimentScript.FileTree.readText_written`
    * `ExperimentScript.Settings.nearest_congr`
-/

namespace ExperimentScript

namespace FileTree

------------------------------------------------------------
-- Trees With The Same Names
------------------------------------------------------------

/- The paths of all files. -/
def paths (tree : FileTree) : List Path :=
  tree.files.map Prod.fst

/- Two trees with the same files, whatever their contents. -/
structure SameNames (tree other : FileTree) : Prop where
  here : tree.here = other.here
  paths : tree.paths = other.paths

theorem isFile_iff
    {tree : FileTree}
    {path : Path} :
    tree.isFile path = true ↔ path ∈ tree.paths := by
  rw [isFile, bytes?, List.lookup_isSome_iff, paths, List.mem_map]
  constructor
  · rintro ⟨entry, hEntry, hPath⟩
    exact ⟨entry, hEntry, (eq_of_beq hPath).symm⟩
  · rintro ⟨entry, hEntry, rfl⟩
    exact ⟨entry, hEntry, beq_self_eq_true entry.1⟩

theorem isDirectory_eq
    (tree : FileTree)
    (path : Path) :
    tree.isDirectory path =
      (path.isPrefixOf tree.here ||
        tree.paths.any fun file =>
          path.isPrefixOf file && path.length < file.length) := by
  rw [isDirectory, paths, List.any_map]
  rfl

theorem below_eq
    (tree : FileTree)
    (directory : Path) :
    tree.below directory =
      (tree.paths.flatMap fun file =>
        (waypoints file).filter fun path =>
          directory.isPrefixOf path &&
            directory.length < path.length).eraseDups.mergeSort
        Path.le := by
  rw [below, paths, List.flatMap_map]

namespace SameNames

variable {tree other third : FileTree}

theorem refl (tree : FileTree) : tree.SameNames tree :=
  ⟨rfl, rfl⟩

theorem trans
    (hFirst : tree.SameNames other)
    (hSecond : other.SameNames third) :
    tree.SameNames third :=
  ⟨hFirst.here.trans hSecond.here, hFirst.paths.trans hSecond.paths⟩

variable (hSame : tree.SameNames other)
include hSame

theorem isFile (path : Path) :
    tree.isFile path = other.isFile path := by
  rw [Bool.eq_iff_iff, isFile_iff, isFile_iff, hSame.paths]

theorem isDirectory (path : Path) :
    tree.isDirectory path = other.isDirectory path := by
  rw [isDirectory_eq, isDirectory_eq, hSame.here, hSame.paths]

theorem contains (path : Path) :
    tree.contains path = other.contains path := by
  rw [FileTree.contains, FileTree.contains, hSame.isFile,
    hSame.isDirectory]

theorem below (directory : Path) :
    tree.below directory = other.below directory := by
  rw [below_eq, below_eq, hSame.paths]

theorem origin (spelled : Text) :
    tree.origin spelled = other.origin spelled := by
  rw [FileTree.origin, FileTree.origin, hSame.here]

theorem follow
    (path : Path)
    (names : List Text) :
    tree.follow path names = other.follow path names := by
  induction names generalizing path with
  | nil => rfl
  | cons name names ih =>
      rw [FileTree.follow, FileTree.follow, hSame.isDirectory,
        hSame.isFile, ih, ih]

theorem lookUp (path : Path) :
    tree.lookUp path = other.lookUp path := by
  simp only [FileTree.lookUp, hSame.follow]

theorem locate? (spelled : Text) :
    tree.locate? spelled = other.locate? spelled := by
  simp only [FileTree.locate?, hSame.origin, hSame.follow,
    hSame.contains]

theorem target (spelled : Text) :
    tree.target spelled = other.target spelled := by
  simp only [FileTree.target, hSame.origin, hSame.follow,
    hSame.isDirectory]

end SameNames

------------------------------------------------------------
-- Reading The Same Files
------------------------------------------------------------

section Reading

variable {tree other : FileTree}
variable (hSame : tree.SameNames other)
variable {path : Path}
variable (hBytes : tree.bytes? path = other.bytes? path)

include hSame hBytes

theorem readRaw_congr : tree.readRaw path = other.readRaw path := by
  rw [readRaw, readRaw, readBytes, readBytes, hBytes,
    hSame.isDirectory]

theorem readText_congr : tree.readText path = other.readText path := by
  rw [readText, readText, readRaw_congr hSame hBytes]

end Reading

------------------------------------------------------------
-- Writing A File
------------------------------------------------------------

theorem lookup_setEntry
    (path other : Path)
    (bytes : ByteArray)
    (entries : List (Path × ByteArray)) :
    (setEntry path bytes entries).lookup other =
      if other = path then some bytes else entries.lookup other := by
  induction entries with
  | nil =>
      rw [setEntry, List.lookup_cons]
      by_cases hOther : other = path
      · rw [beq_iff_eq.mpr hOther, if_pos hOther]
      · rw [beq_eq_false_iff_ne.mpr hOther, if_neg hOther]
  | cons entry entries ih =>
      rcases entry with ⟨key, old⟩
      rw [setEntry, List.lookup_cons]
      by_cases hKey : key = path
      · rw [if_pos hKey, List.lookup_cons, hKey]
        by_cases hOther : other = path
        · rw [beq_iff_eq.mpr hOther, if_pos hOther]
        · rw [beq_eq_false_iff_ne.mpr hOther, if_neg hOther]
      · rw [if_neg hKey, List.lookup_cons, ih]
        by_cases hOther : other = key
        · rw [beq_iff_eq.mpr hOther, hOther]
          exact (if_neg hKey).symm
        · rw [beq_eq_false_iff_ne.mpr hOther]

theorem map_fst_setEntry
    {path : Path}
    (bytes : ByteArray)
    {entries : List (Path × ByteArray)}
    (hThere : path ∈ entries.map Prod.fst) :
    (setEntry path bytes entries).map Prod.fst =
      entries.map Prod.fst := by
  induction entries with
  | nil => exact absurd hThere List.not_mem_nil
  | cons entry entries ih =>
      rcases entry with ⟨key, old⟩
      rw [setEntry]
      by_cases hKey : key = path
      · rw [if_pos hKey, List.map_cons, List.map_cons, hKey]
      · rw [List.map_cons, List.mem_cons] at hThere
        have hRest := hThere.resolve_left (Ne.symm hKey)
        rw [if_neg hKey, List.map_cons, List.map_cons, ih hRest]

section Writing

variable (tree : FileTree) (path : Path) (bytes : ByteArray)

/- A file that was written has what was written. -/
@[simp] theorem bytes?_put_self :
    (tree.put path bytes).bytes? path = some bytes := by
  rw [bytes?, put, lookup_setEntry, if_pos rfl]

variable {path}

/- All other files have what they had. -/
theorem bytes?_put_of_ne
    {other : Path}
    (hOther : other ≠ path) :
    (tree.put path bytes).bytes? other = tree.bytes? other := by
  rw [bytes?, put, lookup_setEntry, if_neg hOther, bytes?]

variable {tree}

/- Writing a file that is there keeps all names. -/
theorem sameNames_put (hFile : tree.isFile path = true) :
    (tree.put path bytes).SameNames tree :=
  ⟨rfl, map_fst_setEntry bytes (isFile_iff.mp hFile)⟩

end Writing

end FileTree

------------------------------------------------------------
-- Texts In Files
------------------------------------------------------------

namespace Text

theorem map_char_of_mapM
    {text : Text}
    {characters : List Char}
    (hText : text.mapM CodePoint.toChar? = some characters) :
    characters.map CodePoint.char = text := by
  induction text generalizing characters with
  | nil =>
      cases hText
      rfl
  | cons c text ih =>
      rw [List.mapM_cons] at hText
      cases c with
      | surrogate offset => cases hText
      | char c =>
          rcases Option.bind_eq_some_iff.mp hText with
            ⟨first, hFirst, hRest⟩
          rcases Option.bind_eq_some_iff.mp hRest with
            ⟨more, hMore, hWhole⟩
          cases hFirst
          cases hWhole
          rw [List.map_cons, ih hMore]

/- A string is the text it was made from. -/
theorem ofString_of_toString?
    {text : Text}
    {string : String}
    (hString : text.toString? = some string) :
    ofString string = text := by
  rcases Option.map_eq_some_iff.mp hString with
    ⟨characters, hCharacters, rfl⟩
  rw [ofString, String.toList_ofList]
  exact map_char_of_mapM hCharacters

end Text

namespace FileTree

theorem fromUTF8?_toUTF8 (string : String) :
    String.fromUTF8? string.toUTF8 = some string := by
  rw [String.toUTF8_eq_toByteArray, String.fromUTF8?,
    dif_pos string.isValidUTF8]
  rfl

/- A file of a reading finds what an encoded text was. -/
theorem readRaw_of_bytes
    {tree : FileTree}
    {path : Path}
    {string : String}
    (hBytes : tree.bytes? path = some string.toUTF8) :
    tree.readRaw path = .ok (Text.ofString string) := by
  rw [readRaw, readBytes, hBytes]
  simp only [bind, Except.bind, fromUTF8?_toUTF8]
  rfl

/- A plain text that was written is read as it is. -/
theorem readText_written
    {tree : FileTree}
    {path : Path}
    {text : Text}
    {string : String}
    (hBytes : tree.bytes? path = some string.toUTF8)
    (hString : text.toString? = some string)
    (hPlain : text.IsPlain) :
    tree.readText path = .ok text := by
  rw [readText, readRaw_of_bytes hBytes,
    Text.ofString_of_toString? hString]
  exact congrArg Except.ok (Text.unifyLineEnds_of_isPlain hPlain)

end FileTree

------------------------------------------------------------
-- Settings
------------------------------------------------------------

namespace Settings

/- Whether a path is that of a file of settings. -/
def isSettings (path : Path) : Bool :=
  path.getLast? = some fileName

/- A file that is found has the name of such files. -/
theorem isSettings_of_findUp?
    {tree : FileTree}
    {names : List Text}
    {path : Path}
    (hFound : findUp? tree names = some path) :
    isSettings path = true := by
  induction names with
  | nil =>
      rcases Option.ite_none_right_eq_some.mp hFound with ⟨_, hPath⟩
      cases hPath
      rfl
  | cons name names ih =>
      rw [findUp?] at hFound
      split at hFound
      · cases hFound
        rw [isSettings, List.getLast?_concat]
        exact decide_eq_true rfl
      · exact ih hFound

/- So has one that is found for a path. -/
theorem isSettings_of_find
    {tree : FileTree}
    {path file : Path}
    (hFound : find tree path = .ok (some file)) :
    isSettings file = true := by
  rw [find] at hFound
  rcases exists_of_bind_eq_ok hFound with ⟨_, _, hStart⟩
  rcases exists_of_bind_eq_ok hStart with ⟨_, _, hSearch⟩
  exact isSettings_of_findUp? (Except.ok.inj hSearch)

section Congr

variable {tree other : FileTree}
variable (hSame : tree.SameNames other)

include hSame

theorem findUp?_congr (names : List Text) :
    findUp? tree names = findUp? other names := by
  induction names with
  | nil => rw [findUp?, findUp?, hSame.contains]
  | cons name names ih =>
      simp only [findUp?, hSame.contains, ih]

theorem find_congr (path : Path) :
    find tree path = find other path := by
  simp only [find, hSame.isFile, hSame.lookUp, findUp?_congr hSame]

/- Settings depend on the files of settings only. -/
theorem nearest_congr
    [Room]
    (hBytes :
      ∀ path,
        isSettings path = true →
          tree.bytes? path = other.bytes? path)
    (path : Path) :
    nearest tree path = nearest other path := by
  rw [nearest, nearest, find_congr hSame]
  cases hFound : find other path with
  | error error => rfl
  | ok found =>
      cases found with
      | none => rfl
      | some file =>
          have hRaw :=
            FileTree.readRaw_congr hSame
              (hBytes file (isSettings_of_find hFound))
          simp only [Except.mapError, bind, Except.bind, load, hRaw]

end Congr

end Settings

end ExperimentScript
