import WriteBehind.Repo
import WriteBehind.RecordType

/-!
# Sources

A source is a record type bound to a place in storage.  Its description is given
at registration; `SourceMeta` is what the description comes to, as drivers see
it.
-/

namespace WriteBehind

/-- The driver that stores nothing. -/
def noStorage : String := "none"

/-- The number of groups of a repository unless its description says otherwise. -/
def defaultGroups : Nat := 16

/-- How records of a type are handled in memory. -/
structure Model where
  record : RecordType
  /-- Whether the absence of rows is never remembered. -/
  volatile : Bool := false
  /-- Whether callbacks are registered. -/
  observed : Bool := false
deriving DecidableEq

/-- The description of a source at its registration. -/
structure SourceDesc where
  driver : String
  table : String
  db : String := ""
  /-- Whether the data are owned elsewhere. -/
  replica : Bool := false
  groups : Option Nat := none
deriving DecidableEq, Repr

/-- The description of a source that is cached only. -/
def SourceDesc.cacheOnly : SourceDesc := { driver := noStorage, table := "" }

/-- A registered source as drivers see it. -/
structure SourceMeta where
  model : Model
  driver : String
  db : String
  table : String
  replica : Bool
  groups : Nat
deriving DecidableEq

namespace SourceMeta

/-- The meta data of a described source.  A source without storage has a single
group unless its description says otherwise. -/
def ofDesc (model : Model) (desc : SourceDesc) : SourceMeta where
  model
  driver := desc.driver
  db := desc.db
  table := desc.table
  replica := desc.replica
  groups := desc.groups.getD (if desc.driver = noStorage then 1 else defaultGroups)

/-- The namespace of a source. -/
def ns (m : SourceMeta) : String := m.model.record.ns

/-- The names of the tracked fields, runtime fields included if wanted. -/
def fieldNames (m : SourceMeta) (withRuntime : Bool) : List String :=
  (m.model.record.fields.filter fun d => withRuntime || d.stored).map (·.name)

/-- The codes of the key fields. -/
def keyCodes (m : SourceMeta) : List Field :=
  (m.model.record.fields.filter fun d => d.role == .key).map (·.code)

/-- Whether a driver stores the records. -/
def isPersisted (m : SourceMeta) : Bool := m.driver != noStorage

/-- An empty repository for a source.  Instances go by number. -/
def newRepo (m : SourceMeta) : Except Breach (Repo Key Nat) :=
  Repo.create m.groups m.model.volatile

end SourceMeta

/-! ## Registration -/

/-- The sources and drivers known before setup. -/
structure Registry where
  sources : SortedMap SourceMeta := .empty
  /-- The names of the drivers. -/
  drivers : List String := [noStorage]

namespace Registry

/-- Registers a driver. -/
def registerDriver (r : Registry) (driver : String) : Registry :=
  if driver ∈ r.drivers then r else { r with drivers := r.drivers ++ [driver] }

/-- Registers a source, once per namespace. -/
def register (r : Registry) (model : Model) (desc : SourceDesc) : Except Error Registry :=
  let ns := model.record.ns
  if r.sources.contains ns then .error (.duplicateNamespace ns)
  else if desc.groups = some 0 then .error (.custom s!"{ns} needs at least one repo group")
  else .ok { r with sources := r.sources.insert ns (.ofDesc model desc) }

/-- Registers a source that has to be accepted. -/
def mustRegister (r : Registry) (model : Model) (desc : SourceDesc) :
    Except Breach Registry :=
  match r.register model desc with
  | .ok r => .ok r
  | .error e => .error (.registration e)

/-- The registered namespaces in order. -/
def namespaces (r : Registry) : List String := r.sources.keys

/-- The meta data of a namespace. -/
def meta? (r : Registry) (ns : String) : Option SourceMeta := r.sources.get? ns

end Registry

end WriteBehind
