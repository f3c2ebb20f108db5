import ExperimentScript.Toml.Reader

/-
  Reading a TOML document into a table.

  Statements are read line by line. A set of notes on paths
  keeps a table from being declared twice and an inline
  table or array from being changed later.

  Key definitions include:
    * `ExperimentScript.Toml.Note`
    * `ExperimentScript.Toml.Document`
    * `ExperimentScript.Toml.statements`
    * `ExperimentScript.Toml.decode`
-/

namespace ExperimentScript

namespace Toml

------------------------------------------------------------
-- Notes On Paths
------------------------------------------------------------

/-
  A note on a path: the table there was declared, or all
  that is at it and below it is frozen.
-/
inductive Note where
  | declared (path : List Text)
  | frozen (path : List Text)
deriving DecidableEq

/- The path that a note is on. -/
def Note.path : Note → List Text
  | .declared path | .frozen path => path

/- Whether a table was declared at a path. -/
def isDeclared
    (notes : List Note)
    (path : List Text) :
    Bool :=
  notes.contains (.declared path)

/- Whether what is at a path is frozen. -/
def isFrozen
    (notes : List Note)
    (path : List Text) :
    Bool :=
  notes.any fun
    | .frozen above => above.isPrefixOf path
    | .declared _ => false

------------------------------------------------------------
-- Documents
------------------------------------------------------------

/-
  What has been read of a document: its fields, the notes,
  the notes that begin to hold with the next table, and the
  path of the table that is being filled.
-/
structure Document where
  fields : Fields Value
  notes : List Note
  pending : List Note
  table : List Text

namespace Document

/- The document in which nothing has been read. -/
def empty : Document := ⟨[], [], [], []⟩

/- Goes on to the table declared at a path. -/
def openTable
    (document : Document)
    (path : List Text) :
    Option Document := do
  let notes := document.pending ++ document.notes
  if isDeclared notes path || isFrozen notes path then
    none
  let fields ← updateAt true some path document.fields
  return ⟨fields, .declared path :: notes, [], path⟩

/- Adds a table to the list of tables under a name. -/
def appendTable
    (name : Text)
    (fields : Fields Value) :
    Option (Fields Value) :=
  match fields.get? name with
  | none => some (fields.set name (.list [.map []]))
  | some (.list items) =>
    some (fields.set name (.list (items ++ [.map []])))
  | some _ => none

/- Goes on to a new table of the list at a path. -/
def openListTable
    (document : Document)
    (path : List Text) :
    Option Document := do
  let notes := document.pending ++ document.notes
  if isFrozen notes path then
    none
  let kept := notes.filter fun note => !path.isPrefixOf note.path
  let (parent, name) := parentAndName path
  let fields ← updateAt true (appendTable name) parent document.fields
  return ⟨fields, .declared path :: kept, [], path⟩

/- The paths of the tables that a dotted key goes through. -/
def tablesThrough
    (table key : List Text) :
    List (List Text) :=
  (List.range' 1 (key.length - 1)).map fun count =>
    table ++ key.take count

/- Adds a value under a key of the table that is being filled. -/
def insert
    (document : Document)
    (key : List Text)
    (value : Value) :
    Option Document := do
  let through := tablesThrough document.table key
  if through.any (isDeclared document.notes) then
    none
  let (parent, name) := parentAndName key
  let parent := document.table ++ parent
  if isFrozen document.notes parent then
    none
  let fields ←
    updateAt true (insertNew name value) parent document.fields
  let notes :=
    if value.isContainer then
      .frozen (document.table ++ key) :: document.notes
    else
      document.notes
  return { document with
    fields := fields
    notes := notes
    pending := through.map Note.declared ++ document.pending }

end Document

------------------------------------------------------------
-- Statements
------------------------------------------------------------

/- The outcome of a step, or a failure. -/
def orMalformed : Option Document → Reader Document
  | some document => return document
  | none => malformed

variable [Room]

/- One statement: a declaration of a table, or a key with a value. -/
def statement (document : Document) : Reader Document := do
  match ← peek? with
  | some (.char '[') =>
    if ← accept "[[" then
      skipBlanks
      let path ← key
      let next ← orMalformed (document.openListTable path)
      expect "]]"
      return next
    else
      skip 1
      skipBlanks
      let path ← key
      let next ← orMalformed (document.openTable path)
      expect "]"
      return next
  | some (.char '#') => return document
  | some c =>
    if startsKey c then
      let (path, item) ← keyValue (value Room.tomlLevels)
      orMalformed (document.insert path item)
    else
      malformed
  | none => return document

/- The statements of a document, one a line. -/
def statements : Nat → Document → Reader Document
  | 0, document => return document
  | fuel + 1, document => do
    skipBlanks
    if ← accept "\n" then
      statements fuel document
    else
      let next ← statement document
      skipBlanks
      skipComment
      if (← get).isEmpty then
        return next
      else
        expect "\n"
        statements fuel next

/- The text with a line feed for every carriage return and line feed. -/
def unifyPairs : Text → Text
  | .char '\r' :: .char '\n' :: rest => .char '\n' :: unifyPairs rest
  | c :: rest => c :: unifyPairs rest
  | [] => []

/- The table of a whole document. -/
def decode (text : Text) : Except Failure (Fields Value) := do
  let source := unifyPairs text
  let reader := statements (source.length + 1) .empty
  let document ← reader.run' source
  return document.fields

end Toml

end ExperimentScript
