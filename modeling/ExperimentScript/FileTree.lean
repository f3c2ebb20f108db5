import ExperimentScript.Text.Lines

/-
  Directories and files as a value.

  A path is a list of names from the top. Directories are
  there because something is in them or because the current
  directory is; there are no links.

  What is asked of a file system is spelled in bytes. A text
  can have no such spelling, and one that has can still be too
  long, as a whole or in one of its names.

  Key definitions include:
    * `ExperimentScript.Path.fault?`
    * `ExperimentScript.FileTree`
    * `ExperimentScript.FileTree.resolve`
    * `ExperimentScript.FileTree.startPath`
    * `ExperimentScript.FileTree.lookUp`
    * `ExperimentScript.FileTree.locate?`
    * `ExperimentScript.FileTree.readText`
    * `ExperimentScript.FileTree.writeText`
    * `ExperimentScript.FileTree.below`
-/

namespace ExperimentScript

------------------------------------------------------------
-- Paths
------------------------------------------------------------

/- The names on the way from the top to a file or directory. -/
abbrev Path := List Text

namespace Path

/- Lexicographic order by names. -/
def le : Path → Path → Bool
  | [], _ => true
  | _ :: _, [] => false
  | a :: as, b :: bs =>
    if a = b then le as bs else Text.le a b

/- The names of a spelled path, without empty ones and dots. -/
def names (spelled : Text) : List Text :=
  (spelled.splitOn '/').filter fun name =>
    !name.isEmpty && name != Text.ofString "."

/- A path with a stroke between its names. -/
def toText (path : Path) : Text :=
  Text.join "/" path

/- Whether a spelled path begins at the top. -/
def isAbsolute (spelled : Text) : Bool :=
  spelled.head? = some (.char '/')

/- A spelled path without what does not change it. -/
def tidy (spelled : Text) : Text :=
  let names := toText (names spelled)
  if isAbsolute spelled then "/" ++ names
  else if names.isEmpty then "."
  else names

/- Whether the last name of a path ends in a given text. -/
def endsIn
    (ending : Text)
    (path : Path) :
    Bool :=
  match path.getLast? with
  | some name => ending.isSuffixOf name
  | none => false

end Path

------------------------------------------------------------
-- Paths In Bytes
------------------------------------------------------------

/- Why a file cannot be read or written. -/
inductive FileError where
  | badPath
  | nameTooLong
  | notFound
  | isDirectory
  | notDirectory
  | notUtf8
  | notEncodable
deriving DecidableEq, Repr

namespace CodePoint

/-
  Whether a code point can stand in a path. The surrogates
  U+DC80 to U+DCFF stand for single bytes that are no part of
  a character; the others stand for nothing.
-/
def isPathCharacter : CodePoint → Bool
  | .char _ => true
  | .surrogate offset => 0x480 ≤ offset.val && offset.val ≤ 0x4FF

/- How many bytes a code point of a path takes. -/
def pathBytes : CodePoint → Nat
  | .char c => c.utf8Size
  | .surrogate _ => 1

end CodePoint

namespace Path

/- How many bytes a text takes in a path. -/
def byteCount (spelled : Text) : Nat :=
  spelled.foldl (fun count c => count + c.pathBytes) 0

/- Why a text cannot be spelled as a path or a part of one. -/
def fault? (spelled : Text) : Option FileError :=
  if !spelled.all CodePoint.isPathCharacter then some .notEncodable
  else if spelled.contains (.char '\x00') then some .badPath
  else none

/- Whether a name is longer than a directory can hold. -/
def isOverlong (name : Text) : Bool :=
  255 < byteCount name

/- Whether a spelled path is longer than can be asked for. -/
def isTooLong (spelled : Text) : Bool :=
  4095 < byteCount spelled

/- A path as it is spelled from the top. -/
def fromTop (path : Path) : Text :=
  "/" ++ toText path

end Path

------------------------------------------------------------
-- File Trees
------------------------------------------------------------

/- Files with their contents, and the current directory. -/
structure FileTree where
  here : Path
  files : List (Path × ByteArray)

namespace FileTree

/- The contents of the file at a path. -/
def bytes?
    (tree : FileTree)
    (path : Path) :
    Option ByteArray :=
  tree.files.lookup path

/- Whether there is a file at a path. -/
def isFile
    (tree : FileTree)
    (path : Path) :
    Bool :=
  (tree.bytes? path).isSome

/- Whether there is a directory at a path. -/
def isDirectory
    (tree : FileTree)
    (path : Path) :
    Bool :=
  path.isPrefixOf tree.here ||
    tree.files.any fun (file, _) =>
      path.isPrefixOf file && path.length < file.length

/- Whether there is anything at a path. -/
def contains
    (tree : FileTree)
    (path : Path) :
    Bool :=
  tree.isFile path || tree.isDirectory path

------------------------------------------------------------
-- Spelled Paths
------------------------------------------------------------

/- Where a spelled path begins. -/
def origin
    (tree : FileTree)
    (spelled : Text) :
    Path :=
  if Path.isAbsolute spelled then [] else tree.here

/- The path after a name, where two dots lead one up. -/
def step
    (path : Path)
    (name : Text) :
    Path :=
  if name = ".." then path.dropLast else path ++ [name]

/-
  The path that is spelled, whether or not there is anything
  at it or on the way to it.
-/
def resolve
    (tree : FileTree)
    (spelled : Text) :
    Path :=
  (Path.names spelled).foldl step (tree.origin spelled)

/- Follows names that must each be taken in a directory. -/
def follow
    (tree : FileTree) :
    Path → List Text → Except FileError Path
  | path, [] => .ok path
  | path, name :: names =>
    if tree.isDirectory path then
      if name.isEmpty || name = "." then
        follow tree path names
      else if Path.isOverlong name then
        .error .nameTooLong
      else
        follow tree (step path name) names
    else if tree.isFile path then
      .error .notDirectory
    else
      .error .notFound

/-
  The path that a spelled path leads to, whether or not there
  is anything. It can be found if each of its names has a
  spelling in bytes; the first that has none is the reason if
  it cannot.
-/
def startPath
    (tree : FileTree)
    (spelled : Text) :
    Except FileError Path :=
  match (Path.names spelled).findSome? Path.fault? with
  | some error => .error error
  | none => .ok (tree.resolve spelled)

/-
  Looks whether there is anything at a path. There need not
  be, but the path must not be too long to look.
-/
def lookUp
    (tree : FileTree)
    (path : Path) :
    Except FileError Unit :=
  if Path.isTooLong (Path.fromTop path) then .error .nameTooLong
  else
    match tree.follow [] path with
    | .error .nameTooLong => .error .nameTooLong
    | _ => .ok ()

/-
  The path of what is there under a spelled path. Every name
  on the way must lead through a directory.
-/
def locate?
    (tree : FileTree)
    (spelled : Text) :
    Option Path :=
  if spelled.isEmpty || Path.isTooLong spelled then none
  else
    match tree.follow (tree.origin spelled) (spelled.splitOn '/') with
    | .ok path => if tree.contains path then some path else none
    | .error _ => none

------------------------------------------------------------
-- Reading
------------------------------------------------------------

/- The contents of a file. -/
def readBytes
    (tree : FileTree)
    (path : Path) :
    Except FileError ByteArray :=
  match tree.bytes? path with
  | some bytes => .ok bytes
  | none =>
    .error (if tree.isDirectory path then .isDirectory else .notFound)

/- The text of a file as it stands. -/
def readRaw
    (tree : FileTree)
    (path : Path) :
    Except FileError Text := do
  match String.fromUTF8? (← tree.readBytes path) with
  | some text => return Text.ofString text
  | none => throw .notUtf8

/- The text of a file, with every end of line as a line feed. -/
def readText
    (tree : FileTree)
    (path : Path) :
    Except FileError Text :=
  return (← tree.readRaw path).unifyLineEnds

/-
  The text of the file that a name spells, which is empty if
  there is no such file.
-/
def sourceText
    (tree : FileTree)
    (name : Text) :
    Except FileError Text :=
  match tree.locate? name with
  | some path => if tree.isFile path then tree.readText path else .ok []
  | none => .ok []

------------------------------------------------------------
-- Writing
------------------------------------------------------------

/- The entry of a file in a list, replaced or added at the end. -/
def setEntry
    (path : Path)
    (bytes : ByteArray) :
    List (Path × ByteArray) → List (Path × ByteArray)
  | [] => [(path, bytes)]
  | (key, old) :: rest =>
    if key = path then (path, bytes) :: rest
    else (key, old) :: setEntry path bytes rest

/- The tree with a file at a path, in directories made for it. -/
def put
    (tree : FileTree)
    (path : Path)
    (bytes : ByteArray) :
    FileTree :=
  { tree with files := setEntry path bytes tree.files }

/- The path at which a file can be written under a spelled path. -/
def target
    (tree : FileTree)
    (spelled : Text) :
    Except FileError Path := do
  if Path.isTooLong (Path.tidy spelled) then
    throw .nameTooLong
  let path ← tree.follow (tree.origin spelled) (Path.names spelled)
  if tree.isDirectory path then
    throw .isDirectory
  else
    return path

/-
  Writes a text to a file. A text with a lone surrogate has
  no encoding; by then the file has been emptied.
-/
def writeText
    (tree : FileTree)
    (spelled : Text)
    (text : Text) :
    FileTree × Except FileError Unit :=
  match tree.target spelled with
  | .error error => (tree, .error error)
  | .ok path =>
    match text.toString? with
    | some string => (tree.put path string.toUTF8, .ok ())
    | none => (tree.put path .empty, .error .notEncodable)

------------------------------------------------------------
-- Listing
------------------------------------------------------------

/- The files and directories on the way to a file, itself included. -/
def waypoints (file : Path) : List Path :=
  (List.range' 1 file.length).map fun count => file.take count

/- What is below a directory, in the order of the names. -/
def below
    (tree : FileTree)
    (directory : Path) :
    List Path :=
  let all := tree.files.flatMap fun (file, _) =>
    (waypoints file).filter fun path =>
      directory.isPrefixOf path && directory.length < path.length
  all.eraseDups.mergeSort Path.le

/- The files that differ from those of an earlier tree. -/
def changesSince
    (tree earlier : FileTree) :
    List (Path × ByteArray) :=
  tree.files.filter fun (path, bytes) =>
    match earlier.bytes? path with
    | some old => old.data != bytes.data
    | none => true

end FileTree

end ExperimentScript
