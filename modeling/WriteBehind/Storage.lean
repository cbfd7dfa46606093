import WriteBehind.Cursor
import WriteBehind.Saver
import WriteBehind.Source
import WriteBehind.Storage.Audited
import WriteBehind.Storage.File

/-!
# Storage

The drivers at hand and the tables they keep.  A driver is initialised, asked
whether it accepts a source, and opened with options, which gives a `DaoRef`; a
table opened from that is a `TableRef`.  References are plain data, and all that
they refer to stands in one `Storage`.
-/

namespace WriteBehind

/-- The drivers at hand. -/
inductive Driver where
  | none
  | memory
  | file
  | audited
deriving DecidableEq, Repr

namespace Driver

/-- The name under which a driver is registered. -/
def name : Driver → String
  | .none => noStorage
  | .memory => "memory"
  | .file => "redb"
  | .audited => "probe"

/-- All drivers. -/
def all : List Driver := [.none, .memory, .file, .audited]

/-- The driver of a name. -/
def ofName? (name : String) : Option Driver := all.find? (·.name == name)

end Driver

/-- An opened store. -/
inductive DaoRef where
  | none
  | memory
  | audited
  | file (path : String)
deriving DecidableEq, Repr

/-- An opened table. -/
inductive TableRef where
  | none
  | memory (ns : String)
  | audited (ns : String)
  | file (path table : String)
deriving DecidableEq, Repr

/-- The state of all drivers. -/
structure Storage where
  memory : MemoryStore := {}
  audited : AuditedStore := {}
  files : FileStore := {}

namespace Storage

/-- Has a call of the audited store written down. -/
def ask (s : Storage) (stage : Stage) : Except Error Unit × Storage :=
  let (asked, audited) := s.audited.ask stage
  (asked, { s with audited })

/-! ## Drivers -/

/-- Initialises a driver. -/
def init (s : Storage) (driver : Driver) (options : Json) : Except Error Unit × Storage :=
  match driver with
  | .none | .file => (.ok (), s)
  | .memory => (.ok (), { s with memory := { s.memory with inits := s.memory.inits + 1 } })
  | .audited => s.ask (.init options)

/-- Asks a driver whether it accepts a source. -/
def validate (s : Storage) (driver : Driver) (m : SourceMeta) : Except Error Unit × Storage :=
  match driver with
  | .none => (.ok (), s)
  | .memory =>
    if m.table.isEmpty then (.error (.validation driver.name m.ns "empty table name"), s)
    else (.ok (), s)
  | .file =>
    if FileStore.isTableName m.table then (.ok (), s)
    else
      let reason := s!"table name {Text.quote m.table} must be non-empty [A-Za-z0-9_]"
      (.error (.validation driver.name m.ns reason), s)
  | .audited => s.ask (.validate m.ns)

/-- Lets a driver prepare for a source. -/
def extend (s : Storage) (driver : Driver) (m : SourceMeta) : Except Error Unit × Storage :=
  match driver with
  | .none | .memory | .file => (.ok (), s)
  | .audited => s.ask (.extend m.ns)

/-- Opens the store of a driver. -/
def openDao (s : Storage) (driver : Driver) (options : Json) : Except Failure DaoRef × Storage :=
  match driver with
  | .none => (.ok .none, s)
  | .memory =>
    let (result, memory) := s.memory.openDao options
    match result with
    | .ok () => (.ok .memory, { s with memory })
    | .error e => (.error (.error e), s)
  | .file =>
    let (result, files) := s.files.openDao options
    (result.map .file, { s with files })
  | .audited =>
    match s.ask (.dao options) with
    | (.ok (), s) =>
      let (result, store) := s.audited.store.openDao options
      match result with
      | .ok () => (.ok .audited, { s with audited := { s.audited with store } })
      | .error e => (.error (.error e), s)
    | (.error e, s) => (.error (.error e), s)

/-- Opens the table of a source. -/
def openTable (s : Storage) (dao : DaoRef) (m : SourceMeta) : Except Failure TableRef × Storage :=
  match dao with
  | .none => (.ok .none, s)
  | .memory => (.ok (.memory m.ns), { s with memory := s.memory.openTable m.ns m.table })
  | .file path =>
    let (table, files) := s.files.openTable path m.ns m.table
    (table.map (.file path), { s with files })
  | .audited =>
    match s.ask (.table m.ns) with
    | (.ok (), s) =>
      let store := s.audited.store.openTable m.ns m.table
      (.ok (.audited m.ns), { s with audited := { s.audited with store } })
    | (.error e, s) => (.error (.error e), s)

/-! ## Tables -/

/-- The table in memory that a reference leads to, directly or audited. -/
def memoryTable? (s : Storage) : TableRef → Option MemoryTable
  | .memory ns => s.memory.tables.get? ns
  | .audited ns => s.audited.store.tables.get? ns
  | .none | .file _ _ => Option.none

/-- The table in memory of a namespace, an audited one where the store in memory has
none. -/
def inMemory (s : Storage) (ns : String) : TableRef :=
  if s.memory.tables.contains ns then .memory ns else .audited ns

/-- The storage with a table in memory changed, and what the change gives. -/
def withMemoryTable {α : Type} (s : Storage) (table : TableRef) (absent : α)
    (f : MemoryTable → α × MemoryTable) : α × Storage :=
  match table with
  | .memory ns =>
    let (a, memory) := s.memory.withTable ns absent f
    (a, { s with memory })
  | .audited ns =>
    let (a, store) := s.audited.store.withTable ns absent f
    (a, { s with audited := { s.audited with store } })
  | .none | .file _ _ => (absent, s)

/-- The rows that a table holds. -/
def rows (s : Storage) (table : TableRef) : Rows :=
  match table with
  | .none => .empty
  | .memory _ | .audited _ => ((s.memoryTable? table).map (·.rows)).getD .empty
  | .file path name => s.files.rows path name

/-- The name of a table. -/
def tableName (s : Storage) (table : TableRef) : String :=
  match table with
  | .none => noStorage
  | .memory _ | .audited _ => ((s.memoryTable? table).map (·.name)).getD ""
  | .file _ name => name

/-- The call that an audited table writes down before it is used. -/
def askTable (s : Storage) (table : TableRef) (stage : Stage) : Except Error Unit × Storage :=
  match table with
  | .audited _ => s.ask stage
  | .none | .memory _ | .file _ _ => (.ok (), s)

/-- The storage with writes applied to a database file. -/
def writeFile (s : Storage) (path table : String) (commitments : List Commitment) : Storage :=
  { s with files := s.files.write path table (prepareAll commitments) }

/-- Hands commitments to a table after a crash. -/
def recover (table : TableRef) (commitments : List Commitment) (s : Storage) :
    Except Error Unit × Storage :=
  match s.askTable table (.recover commitments.length) with
  | (.error e, s) => (.error e, s)
  | (.ok (), s) =>
    match table with
    | .none => (.ok (), s)
    | .memory _ | .audited _ => s.withMemoryTable table (.ok ()) fun t => t.recover commitments
    | .file path name => (.ok (), s.writeFile path name commitments)

/-- Hands commitments to a table.  After the `k`-th refused attempt another one is
made if `answers k` holds. -/
def saveWhile (answers : Nat → Bool) (table : TableRef) (commitments : List Commitment)
    (s : Storage) : Bool × Storage :=
  match table with
  | .none => (true, s)
  | .memory _ | .audited _ => s.withMemoryTable table true fun t => t.save answers commitments
  | .file path name => (true, s.writeFile path name commitments)

/-- Hands commitments to a table, again and again while their worker runs. -/
def save (table : TableRef) : Save Storage := fun commitments running s =>
  saveWhile (fun _ => running) table commitments s

/-- Reads rows from a table, after the call was written down. -/
def read (table : TableRef) (stage : Stage) (rows : Rows → List Document) (s : Storage) :
    Except Error Cursor × Storage :=
  match s.askTable table stage with
  | (.error e, s) => (.error e, s)
  | (.ok (), s) => (.ok (.ofRows (rows (s.rows table))), s)

/-- The row of a key. -/
def fetch (table : TableRef) (onlyOne : Bool) (key : String) :
    Storage → Except Error Cursor × Storage :=
  read table (.fetch onlyOne key) (·.select [key])

/-- The rows of several keys, in the order asked for. -/
def fetchMulti (table : TableRef) (keys : List String) :
    Storage → Except Error Cursor × Storage :=
  read table (.fetchMulti keys) (·.select keys)

/-- The rows that match a filter, in the order of their keys. -/
def find (table : TableRef) (filter : Document) : Storage → Except Error Cursor × Storage :=
  read table (.find filter) (·.find filter)

/-- The storage with all stores closed that are exclusive to who opened them. -/
def closeAll (s : Storage) : Storage := { s with files := s.files.closeAll }

end Storage

end WriteBehind
