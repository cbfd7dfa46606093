import WriteBehind.Json.ReadBack
import WriteBehind.Memo
import WriteBehind.Path
import WriteBehind.Rows

/-!
# Tables in database files

A database file holds named tables and is open at most once at a time, by
whatever path.  While it is open, the table of a namespace is fixed by who asks
for it first; the rows stay in the file when it is closed.  A write is one
transaction: it changes the file as a whole and does not fail.  Stored rows are read
back as `Document.readBack` says, without the reader's limit on nesting: values that nest
too deep to be read again are out of scope.
-/

namespace WriteBehind

/-- The options of a database file. -/
structure FileOptions where
  path : String
  /-- The size of the cache in mebibytes. -/
  cacheSize : Option Nat

namespace FileOptions

/-- The cache size that a value stands for. -/
def cacheSize? : Json → Option (Option Nat)
  | .null => some none
  | .int n => if 0 ≤ n && n < 0x10000000000000000 then some (some n.toNat) else none
  | _ => none

/-- Options from an object, or from an array of their values in order. -/
def read? : Json → Option FileOptions
  | .obj fields =>
    let doc : Document := .ofList fields
    match doc.get? "path" with
    | some (.str path) =>
      (cacheSize? ((doc.get? "cache_size_mb").getD .null)).map fun cacheSize => { path, cacheSize }
    | _ => none
  | .arr [.str path] => some { path, cacheSize := none }
  | .arr [.str path, size] => (cacheSize? size).map fun cacheSize => { path, cacheSize }
  | _ => none

end FileOptions

/-- The tables of a database file, by name. -/
abbrev Database := SortedMap Rows

/-- The directories and database files of a system. -/
structure FileStore where
  /-- The directories other than the root.  The working directory is there from the
  start. -/
  directories : List Place := [["work"]]
  /-- All files by their place. -/
  files : SortedMap Database := .empty
  /-- The files that are open, with the table name of each namespace. -/
  opened : SortedMap (Memo String) := .empty

namespace FileStore

/-! ## Directories -/

/-- Where a path starts: at the root, or in the working directory. -/
def start (path : String) : Place := if path.startsWith "/" then [] else ["work"]

/-- Whether a place is a directory. -/
def isDirectory (f : FileStore) (place : Place) : Bool :=
  place.isEmpty || f.directories.contains place

/-- Whether a name is not too long, counted in bytes. -/
def nameFits (name : String) : Bool := name.utf8ByteSize ≤ 255

/-- Whether a path is one that the system takes: without NUL and not too long. -/
def pathFits (path : String) : Bool :=
  !path.toList.contains (Char.ofNat 0) && path.utf8ByteSize < 4096

/-- The directory that names lead to, all directories on the way made that do not
exist.  No name may be that of a file. -/
def makeDirectories (f : FileStore) : Place → List String → Option Place × FileStore
  | place, [] => (some place, f)
  | place, name :: rest =>
    let next := place.step name
    if f.isDirectory next then f.makeDirectories next rest
    else if nameFits name && !f.files.contains next.text then
      makeDirectories { f with directories := next :: f.directories } next rest
    else (none, f)

/-- The directory of the file that a path leads to. -/
def makeParent (f : FileStore) (path : String) : Option Place × FileStore :=
  let above := (Path.trimmed path).tail.reverse
  if pathFits (String.intercalate "/" above) then f.makeDirectories (start path) above
  else (none, f)

/-- The place of the database file that a path leads to.  A directory is none, and a
path that ends in a slash or a point names no file. -/
def place? (f : FileStore) (path : String) : Option Place :=
  match Path.place? f.isDirectory (start path) (Path.names path) with
  | some place =>
    if pathFits path && place.head?.all nameFits && !f.isDirectory place then some place else none
  | none => none

/-! ## Files -/

/-- Opens a database file, which is made if there is none, along with the
directories above it. -/
def openDao (f : FileStore) (options : Json) : Except Failure String × FileStore :=
  match FileOptions.read? options with
  | none => (.error (.error .malformedDocument), f)
  | some { path, cacheSize } =>
    match f.makeParent path with
    | (none, f) => (.error (.error .fileSystem), f)
    | (some _, f) =>
      if cacheSize.any (0x10000000000000000 ≤ · * 0x100000) then (.error (.breach .sizeOverflow), f)
      else
        match (f.place? path).map Place.text with
        | none => (.error (.error .database), f)
        | some file =>
          if f.opened.contains file then (.error (.error .database), f)
          else
            (.ok file, { f with
              files := f.files.insert file ((f.files.get? file).getD .empty)
              opened := f.opened.insert file .empty })

/-- The name of the table that a namespace uses in an open file.  The first name
asked for is kept, and its table is made if there is none.  A table must have a
name. -/
def openTable (f : FileStore) (path ns name : String) : Except Failure String × FileStore :=
  let memo := (f.opened.get? path).getD .empty
  let database := (f.files.get? path).getD .empty
  let create : Database → Except Failure String × Database := fun database =>
    if name.isEmpty then (.error (.breach .emptyTableName), database)
    else (.ok name, database.insert name ((database.get? name).getD .empty))
  let (made, memo, database) := memo.getOrCreate ns create database
  (made, { f with files := f.files.insert path database, opened := f.opened.insert path memo })

/-! ## Rows

Rows stand in the file as text.  They are read back whenever they are asked for,
and a row that is changed is read back before the change is laid over it. -/

/-- The rows of a table as they stand in the file. -/
def written (f : FileStore) (path table : String) : Rows :=
  (((f.files.get? path).getD .empty).get? table).getD .empty

/-- The rows of a table. -/
def rows (f : FileStore) (path table : String) : Rows :=
  (f.written path table).map Document.readBack

/-- Written rows after a write. -/
def applyWrite (rows : Rows) (write : PreparedWrite) : Rows :=
  rows.change write.key (rowChange ((rows.get? write.key).map Document.readBack) write)

/-- Applies writes to a table. -/
def write (f : FileStore) (path table : String) (writes : List PreparedWrite) : FileStore :=
  let database := (f.files.get? path).getD .empty
  let rows := writes.foldl applyWrite (f.written path table)
  { f with files := f.files.insert path (database.insert table rows) }

/-- Closes all files. -/
def closeAll (f : FileStore) : FileStore := { f with opened := .empty }

/-- Whether a text is a table name: letters, digits and underscores. -/
def isTableName (name : String) : Bool :=
  !name.isEmpty && name.all fun c => c.isAlphanum || c == '_'

end FileStore

end WriteBehind
