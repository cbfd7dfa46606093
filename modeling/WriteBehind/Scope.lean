import WriteBehind.Record
import WriteBehind.Storage

/-!
# Operations on one source

A `Scope` is what an operation on one source can reach: the source with its
cache and saver, the instances in memory, and the storage.  Instances go by
number; a key that is cached leads to the number of its one live instance.  Each
instance keeps the history of the callbacks made on it.
-/

namespace WriteBehind

/-- A callback made on an instance. -/
inductive Event where
  | create
  | load
  | update (changes : FieldSet)
  | delete
  | reload
deriving DecidableEq, Repr

/-- A callback as text. -/
def Event.text : Event → String
  | .create => "create"
  | .load => "load"
  | .update changes => "update " ++ changes.text
  | .delete => "delete"
  | .reload => "reload"

/-- A record in memory with the callbacks made on it, earliest first. -/
structure Instance where
  record : Record
  events : List Event := []

/-- A registered source at work. -/
structure Source where
  info : SourceMeta
  repo : Repo Key Nat
  table : TableRef
  /-- None where nothing is written. -/
  saver : Option Saver
  /-- How long a commitment may wait for its flush, in milliseconds. -/
  syncInterval : Nat

/-- What an operation on a source can reach. -/
structure Scope where
  source : Source
  instances : List Instance
  storage : Storage

/-- How a record is created. -/
structure CreateFlags where
  tmp : Bool := false
  /-- Whether the record is a second instance that is not cached. -/
  detached : Bool := false
deriving DecidableEq, Repr

namespace Scope

/-- The type of the source's records. -/
def type (s : Scope) : RecordType := s.source.info.model.record

/-- The scope with another cache. -/
def setRepo (s : Scope) (repo : Repo Key Nat) : Scope :=
  { s with source := { s.source with repo } }

/-- The scope with one instance replaced. -/
def setInstance (s : Scope) (id : Nat) (i : Instance) : Scope :=
  { s with instances := s.instances.set id i }

/-- The scope with one more instance, and its number. -/
def addInstance (s : Scope) (i : Instance) : Nat × Scope :=
  (s.instances.length, { s with instances := s.instances ++ [i] })

/-! ## Fetching -/

/-- The callback for a record that comes from storage. -/
def birth (s : Scope) : Event := if s.source.info.replica then .reload else .load

/-- Caches what storage gave for a key.  What is cached already wins; otherwise
data become a new instance. -/
def publish (s : Scope) (key : Key) (data : Option Json) : Option Nat × Scope :=
  let ((cached, first), repo) := s.source.repo.setOnFetch key (data.map fun _ => s.instances.length)
  match data, first with
  | some data, true =>
    (cached, (addInstance (s.setRepo repo) ⟨.load s.type data, [s.birth]⟩).2)
  | _, _ => (cached, s.setRepo repo)

/-- The data of the first row of a cursor. -/
def firstData (type : RecordType) (cursor : Cursor) : Except Error (Option Json) :=
  let (found, cursor) := cursor.next
  if found then (cursor.decodeAs type.read).map some else .ok none

/-- The instance of a key, fetched if nothing is known of the key. -/
def get (s : Scope) (key : Key) : Except Error (Option Nat) × Scope :=
  match s.source.repo.get key with
  | some slot => (.ok slot.live?, s)
  | none =>
    let (fetched, storage) := s.storage.fetch s.source.table true key.text
    let s := { s with storage }
    match fetched.bind (firstData s.type) with
    | .error e => (.error e, s)
    | .ok data =>
      let (id, s) := s.publish key data
      (.ok id, s)

/-- Caches rows under the keys of their data and gives their instances. -/
def publishRows (s : Scope) : List Json → List Nat × Scope
  | [] => ([], s)
  | data :: rows =>
    let (id, s) := s.publish (s.type.keyOf data) (some data)
    let (ids, s) := s.publishRows rows
    (id.toList ++ ids, s)

/-- Caches that storage has no rows for some keys. -/
def publishMissing (s : Scope) : List Key → Scope
  | [] => s
  | key :: keys => (s.publish key none).2.publishMissing keys

/-- The instances of several keys: the cached ones, then the fetched ones in the
order of their rows. -/
def getMulti (s : Scope) (keys : List Key) : Except Error (List Nat) × Scope :=
  let (cached, unknown) := s.source.repo.getMulti keys
  if unknown.isEmpty then (.ok cached, s)
  else
    let (fetched, storage) := s.storage.fetchMulti s.source.table (unknown.map (·.text))
    let s := { s with storage }
    match fetched.bind fun cursor => (cursor.allAs s.type.read).1 with
    | .error e => (.error e, s)
    | .ok rows =>
      let found := rows.map s.type.keyOf
      let (ids, s) := s.publishRows rows
      (.ok (cached ++ ids), s.publishMissing (unknown.filter (· ∉ found)))

/-- The instances of the rows that match a filter. -/
def find (s : Scope) (filter : Document) : Except Error (List Nat) × Scope :=
  let (fetched, storage) := s.storage.find s.source.table filter
  let s := { s with storage }
  match fetched.bind fun cursor => (cursor.allAs s.type.read).1 with
  | .error e => (.error e, s)
  | .ok rows =>
    let (ids, s) := s.publishRows rows
    (.ok ids, s)

/-! ## Creating -/

/-- A new record with flags. -/
def newRecord (type : RecordType) (data : Json) (flags : CreateFlags) : Record :=
  let r := Record.init type data
  { r with header := { r.header with tmp := flags.tmp, detached := flags.detached } }

/-- The error for a key that is taken. -/
def duplicate (s : Scope) (key : Key) : Error := .duplicate s.source.info.ns key.text

/-- A new instance of a record.  A detached one stays out of the cache; for any
other one the key must be free. -/
def create (s : Scope) (data : Json) (flags : CreateFlags) : Except Error Nat × Scope :=
  let record := newRecord s.type data flags
  if flags.detached then
    let (id, s) := s.addInstance ⟨record, [.create]⟩
    (.ok id, s)
  else
    match s.get record.key with
    | (.error e, s) => (.error e, s)
    | (.ok (some _), s) => (.error (s.duplicate record.key), s)
    | (.ok none, s) =>
      let (id, s) := s.addInstance ⟨record, [.create]⟩
      let (stored, repo) := s.source.repo.setOnStore record.key id
      if stored then (.ok id, s.setRepo repo) else (.error (s.duplicate record.key), s)

/-! ## Saving -/

/-- The callback for a commitment. -/
def committedEvent (c : Snapshot) : List Event :=
  match c.pending.lifecycle with
  | .normal => [.update c.pending.changes]
  | .deleted => [.delete]
  | .new | .unavailable => []

/-- Hands a commitment of an instance to the saver, if there is one, and notes its
place. -/
def submit (s : Scope) (id : Nat) (i : Instance) (c : Snapshot) : Scope :=
  match s.source.saver with
  | none => s.setInstance id i
  | some saver =>
    let (placed, saver, storage) :=
      saver.put (Storage.save s.source.table) (.snapshot c) i.record.header.savingIndex s.storage
    let header := i.record.header.setSavingIndex placed
    setInstance
      { s with source := { s.source with saver := some saver }, storage }
      id { i with record := { i.record with header } }

/-- Commits what is pending of an instance, and forgets the instance when it has
no place in storage any more.  Says whether there was something to commit. -/
def commit (s : Scope) (id : Nat) (i : Instance) : Bool × Scope :=
  let (committed, after, s) :=
    match i.record.commit with
    | none => (false, i.record, s)
    | some (c, record) =>
      (true, record, s.submit id ⟨record, i.events ++ committedEvent c⟩ c)
  if !i.record.header.detached && after.lifecycle = .unavailable then
    (committed, s.setRepo (s.source.repo.setOnDelete i.record.key id).2)
  else (committed, s)

/-- Saves an instance.  Nothing is done for an expired one.  A stored record
that is not detached is cached again first, which fails if its key is taken. -/
def save (s : Scope) (id : Nat) : Except Error Bool × Scope :=
  match s.instances[id]? with
  | none => (.ok false, s)
  | some i =>
    let header := i.record.header
    if header.expired then (.ok false, s)
    else if !header.detached && header.lifecycle = .normal then
      let (kept, repo) := s.source.repo.setOnStore i.record.key id
      if kept then
        let (committed, s) := (s.setRepo repo).commit id i
        (.ok committed, s)
      else (.error (s.duplicate i.record.key), s)
    else
      let (committed, s) := s.commit id i
      (.ok committed, s)

/-- Saves an instance and waits until its commitments are flushed. -/
def sync (s : Scope) (id : Nat) : Except Error Unit × Scope :=
  match s.save id with
  | (.error e, s) => (.error e, s)
  | (.ok _, s) =>
    match s.source.saver, s.instances[id]? with
    | some saver, some i =>
      let (result, saver, storage) :=
        saver.sync (Storage.save s.source.table) (some i.record.key.hash) s.storage
      (result, { s with source := { s.source with saver := some saver }, storage })
    | _, _ => (.ok (), s)

/-- Forgets what is cached for a key.  An instance that was cached is marked and
will not be saved again. -/
def expire (s : Scope) (key : Key) : Bool × Scope :=
  let (cached, repo) := s.source.repo.expire key
  let s := s.setRepo repo
  match cached with
  | none => (false, s)
  | some id =>
    match s.instances[id]? with
    | none => (true, s)
    | some i =>
      let header := i.record.header.setExpired
      (true, s.setInstance id { i with record := { i.record with header } })

/-! ## The saver -/

/-- The scope after a step of the saver on the table. -/
def stepSaver (s : Scope) (step : Saver → Storage → Saver × Storage) : Scope :=
  match s.source.saver with
  | none => s
  | some saver =>
    let (saver, storage) := step saver s.storage
    { s with source := { s.source with saver := some saver }, storage }

/-- Waits until everything is flushed. -/
def syncAll (s : Scope) : Except Error Unit × Scope :=
  match s.source.saver with
  | none => (.ok (), s)
  | some saver =>
    let (result, saver, storage) := saver.sync (Storage.save s.source.table) none s.storage
    (result, { s with source := { s.source with saver := some saver }, storage })

/-- Closes the saver. -/
def close (s : Scope) : Scope := s.stepSaver (·.close (Storage.save s.source.table))

/-- Whether the table in memory refuses more attempts than are made in five seconds. -/
def keepsRefusing (s : Scope) : Bool :=
  match s.storage.memoryTable? s.source.table with
  | some table => 50 < table.failBudget
  | none => false

/-- Lets time pass until all flush deadlines have passed. -/
def elapse (s : Scope) : Scope :=
  if s.keepsRefusing then s.stepSaver fun saver storage => (saver.stall, storage)
  else s.stepSaver (·.elapse (Storage.save s.source.table))

end Scope

end WriteBehind
