import WriteBehind.Error
import WriteBehind.Json.Parser
import WriteBehind.Path
import WriteBehind.Settings.Layers
import WriteBehind.Settings.Reading
import WriteBehind.Toml.Reader

/-!
# Settings

Settings say which options each driver, each opened store and each table gets.
The options of a table are looked up by its namespace and, failing that, by its
driver.  `Configurator` is all that setup wants to know; settings are one source
of it.
-/

namespace WriteBehind

/-- The options of a table. -/
structure TableOptions where
  /-- The store that the table is opened from. -/
  daoKey : String
  /-- The number of workers. -/
  concurrence : Nat := 1
  /-- How long a save may take before it is remarked upon, in milliseconds. -/
  saveTimeout : Nat := 5000
  /-- How long a commitment may wait for its batch to be flushed, in
  milliseconds. -/
  syncInterval : Nat := 100
deriving DecidableEq, Repr

/-- The options of the journal. -/
structure RedoOptions where
  enabled : Bool := false
  dir : Option String := none
deriving DecidableEq, Repr

/-- What setup wants to know. -/
structure Configurator where
  dryRun : Bool
  driverOptions : (driver : String) → Json
  daoOptions : (daoKey : String) → Option Json
  tableOptions : (driver ns : String) → Option TableOptions

/-- Options by driver, store, namespace, and driver again for tables. -/
structure Settings where
  dryRun : Bool := false
  redo : Option RedoOptions := none
  drivers : SortedMap Json := .empty
  daos : SortedMap Json := .empty
  tables : SortedMap TableOptions := .empty
  defaults : SortedMap TableOptions := .empty

namespace Settings

/-! ## Reading -/

/-- The options of a table. -/
def readTableOptions (r : Reading) (v : Json) : Option TableOptions := do
  let doc ← r.fields ["dao_key", "concurrence", "save_timeout", "sync_interval"] v
  return {
    daoKey := ← Reading.field doc "dao_key" none r.text
    concurrence := ← Reading.field doc "concurrence" (some 1) r.natural
    saveTimeout := ← Reading.field doc "save_timeout" (some 5000) r.natural
    syncInterval := ← Reading.field doc "sync_interval" (some 100) r.natural }

/-- The options of the journal. -/
def readRedoOptions (r : Reading) (v : Json) : Option RedoOptions := do
  let doc ← r.fields ["enabled", "dir"] v
  return {
    enabled := ← Reading.field doc "enabled" (some false) r.bool
    dir := ← Reading.field doc "dir" (some none) (Reading.nullable r.text) }

/-- A value that is handed on as it is.  Documents have no infinite numbers. -/
def readAny (v : Json) : Option Json :=
  some (v.mapLeaves fun
    | .float x => if x.isFinite then .float x else .null
    | leaf => leaf)

/-- Settings from a value. -/
def read (r : Reading) (v : Json) : Option Settings := do
  let doc ← r.fields ["dry_run", "redo", "drivers", "daos", "tables", "defaults"] v
  return {
    dryRun := ← Reading.field doc "dry_run" (some false) r.bool
    redo := ← Reading.field doc "redo" (some none) (Reading.nullable (readRedoOptions r))
    drivers := ← Reading.field doc "drivers" (some .empty) (Reading.table readAny)
    daos := ← Reading.field doc "daos" (some .empty) (Reading.table readAny)
    tables := ← Reading.field doc "tables" (some .empty) (Reading.table (readTableOptions r))
    defaults :=
      ← Reading.field doc "defaults" (some .empty) (Reading.table (readTableOptions r)) }

/-- Settings from a JSON value, strictly read. -/
def ofJson (v : Json) : Except Error Settings :=
  match read strict v with
  | some s => .ok s
  | none => .error .malformedDocument

/-- Settings from layers, leniently read. -/
def ofLayers (layers : List (List (String × Json))) : Except Failure Settings :=
  match merged layers with
  | .error b => .error (.breach b)
  | .ok doc =>
    match read lenient (.ofDocument doc) with
    | some s => .ok s
    | none => .error (.error .settings)

/-- The layer that an object is. -/
def layer? : Json → Option (List (String × Json))
  | .obj fields => some fields
  | _ => none

/-- Settings from a TOML text. -/
def ofToml (text : String) : Except Failure Settings :=
  match (Toml.parse? text).bind layer? with
  | some layer => ofLayers [layer]
  | none => .error (.error .settings)

/-! ## Files -/

/-- A value whose integers fit 64 signed bits, others as floating-point numbers. -/
def withSignedIntegers (v : Json) : Json :=
  v.mapLeaves fun
    | .int n => if n < 0x8000000000000000 then .int n else .float (.ofDecimal ⟨n.toNat, 0⟩)
    | leaf => leaf

/-- The layer in a file, read by the extension of its name. -/
def fileLayer? (name text : String) : Option (List (String × Json)) :=
  match name.splitOn "." with
  | _ :: parts@(_ :: _) =>
    if name.startsWith "." && parts.length = 1 then none
    else if parts.getLast? = some "toml" then (Toml.parse? text).bind layer?
    else if parts.getLast? = some "json" then
      ((Json.parse? text).map withSignedIntegers).bind layer?
    else none
  | _ => none

/-- A file with settings: its place and its text. -/
abbrev SettingsFile := Place × String

/-- The file that a path means, which may lack the extension: a file of just that
name, else one with an extension known. -/
def findFile? (files : List SettingsFile) (start : Place) (path : String) : Option SettingsFile :=
  let isDirectory (place : Place) : Bool := files.any fun f => f.1.isBelow place
  let at? (names : List String) : Option SettingsFile :=
    (Path.place? isDirectory start names).bind fun place => files.find? (·.1 = place)
  let extended (extension : String) : Option SettingsFile :=
    match Path.trimmed path with
    | name :: above => if Path.leadsDown name then at? ((name ++ extension) :: above) else none
    | [] => none
  (at? (Path.names path)).or ((extended ".toml").or (extended ".json"))

/-- Settings from a file, the environment laid over it.  The paths of all files, and of
the one that is read, start in one directory. -/
def load (files : List (String × String)) (path : String) (exported : List (String × String)) :
    Except Failure Settings :=
  let start : Place := ["settings"]
  let files : List SettingsFile :=
    files.map fun (path, text) => ((path.splitOn "/").foldl Place.step start, text)
  let layer? := do
    let (place, text) ← findFile? files start path
    fileLayer? (place.head?.getD "") text
  match layer? with
  | some layer => ofLayers [layer, environment exported]
  | none => .error (.error .settings)

/-! ## Changing and asking -/

/-- Settings with the options of a store. -/
def withDao (s : Settings) (daoKey : String) (options : Json) : Settings :=
  { s with daos := s.daos.insert daoKey options }

/-- Settings with the options of the table of a namespace. -/
def withTable (s : Settings) (ns : String) (options : TableOptions) : Settings :=
  { s with tables := s.tables.insert ns options }

/-- Settings with the options of the tables of a driver. -/
def withDefault (s : Settings) (driver : String) (options : TableOptions) : Settings :=
  { s with defaults := s.defaults.insert driver options }

/-- The options of a driver, null where there are none. -/
def driverOptions (s : Settings) (driver : String) : Json := (s.drivers.get? driver).getD .null

/-- The options of a store. -/
def daoOptions (s : Settings) (daoKey : String) : Option Json := s.daos.get? daoKey

/-- The options of a table: those of its namespace, else those of its driver. -/
def tableOptions (s : Settings) (driver ns : String) : Option TableOptions :=
  (s.tables.get? ns).orElse fun _ => s.defaults.get? driver

/-- What setup wants to know, from settings. -/
def configurator (s : Settings) : Configurator where
  dryRun := s.dryRun
  driverOptions := s.driverOptions
  daoOptions := s.daoOptions
  tableOptions := s.tableOptions

end Settings

end WriteBehind
