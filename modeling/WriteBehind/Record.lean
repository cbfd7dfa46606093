import WriteBehind.Commitment

/-!
# Records

A record in memory: its type, its data and its header.  Edits mark what they
change, and `Record.commit` hands out everything marked since the last time as
one snapshot.
-/

namespace WriteBehind

/-- A record in memory. -/
structure Record where
  type : RecordType
  header : Header
  data : Json

namespace Record

/-- A record that has no place in storage yet. -/
def ofData (type : RecordType) (data : Json) : Record := ⟨type, {}, data⟩

/-- A new record. -/
def init (type : RecordType) (data : Json) : Record :=
  ⟨type, .ofLifecycle .new, data⟩

/-- A record that was read from storage. -/
def load (type : RecordType) (data : Json) : Record :=
  ⟨type, { Header.ofLifecycle .normal with loading := false }, data⟩

/-- The key of a record. -/
def key (r : Record) : Key := r.type.keyOf r.data

/-- The lifecycle of a record. -/
def lifecycle (r : Record) : Lifecycle := r.header.lifecycle

/-- The version of a record's data. -/
def version (r : Record) : UInt64 := r.type.versionOf r.data

/-- Namespace and key as one text. -/
def id (r : Record) : String := r.type.ns ++ ":" ++ r.key.text

/-- The snapshot of a record with what is pending. -/
def capture (r : Record) : Snapshot := .capture r.type r.header.toPending r.data

/-- Marks fields as changed. -/
def setChanged (r : Record) (fields : List Field) : Except Failure Record :=
  (r.header.setChanged fields).map fun header => { r with header }

/-- A document with the values that another one has for the listed fields. -/
def overlay (fields : List FieldDesc) (listed : FieldSet) (incoming current : Document) :
    Document :=
  (fields.filter fun d => listed.mem d.code).foldl (fun doc d =>
    match incoming.get? d.name with
    | some value => doc.insert d.name value
    | none => doc) current

/-- Takes the listed fields over from other data and marks them.  On an error
nothing is changed. -/
def update (r : Record) (incoming : Json) (listed : FieldSet) : Except Error Record :=
  if r.lifecycle.isGone then .error (.invalidLifecycle r.lifecycle)
  else do
    let incoming ← toDocument incoming
    let current ← toDocument r.data
    let data ← r.type.read (.ofDocument (overlay r.type.fields listed incoming current))
    let header ← r.header.markChanged listed
    return { r with data, header }

/-- Lets a record wait for its removal, and whether it did not before. -/
def delete (r : Record) : Record × Bool :=
  let (header, marked) := r.header.markAsDeleted
  ({ r with header }, marked)

/-- The pending changes as a snapshot, after which nothing is pending. -/
def commit (r : Record) : Option (Snapshot × Record) :=
  if r.header.dirty then
    let header := r.header.beginCommit
    some ({ r with header }.capture, { r with header := header.finishCommit })
  else none

end Record

end WriteBehind
