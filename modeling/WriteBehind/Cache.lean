import WriteBehind.Scope
import WriteBehind.Setup

/-!
# The cache

The facade over all sources: records are created, fetched, saved and expired
through it.  An operation on one source works on the `Scope` of the source, so
no other source is in its reach.  `Cache.setup` carries out the plan for a
registry.
-/

namespace WriteBehind

/-- All sources at work. -/
structure Cache where
  sources : SortedMap Source
  instances : List Instance := []
  storage : Storage
  dryRun : Bool
  stopped : Bool := false

namespace Cache

/-! ## Setup -/

/-- What setup has opened so far. -/
structure Opened where
  storage : Storage
  daos : SortedMap DaoRef := .empty
  tables : SortedMap TableRef := .empty

/-- What a journal still holds, by namespace. -/
abbrev Journal := String → Except Error (List Commitment)

/-- A call on the driver of a name. -/
def onDriver (name : String) (o : Opened)
    (call : Driver → Storage → Except Error Unit × Storage) : Except Failure Unit × Opened :=
  match Driver.ofName? name with
  | none => (.error (.error (.unknownDriver name)), o)
  | some driver =>
    let (result, storage) := call driver o.storage
    (result.mapError .error, { o with storage })

/-- Makes a call of the setup on the storage. -/
def perform (journal : Journal) (call : Call) (o : Opened) : Except Failure Unit × Opened :=
  match call with
  | .init name options => onDriver name o fun driver s => s.init driver options
  | .validate name m => onDriver name o fun driver s => s.validate driver m
  | .extend name m => onDriver name o fun driver s => s.extend driver m
  | .openDao daoKey name options =>
    match Driver.ofName? name with
    | none => (.error (.error (.unknownDriver name)), o)
    | some driver =>
      match o.storage.openDao driver options with
      | (.ok dao, storage) => (.ok (), { o with storage, daos := o.daos.insert daoKey dao })
      | (.error e, storage) => (.error e, { o with storage })
  | .openTable daoKey m =>
    match o.daos.get? daoKey with
    | none => (.error (.error (.missingDaoOptions daoKey)), o)
    | some dao =>
      match o.storage.openTable dao m with
      | (.ok table, storage) => (.ok (), { o with storage, tables := o.tables.insert m.ns table })
      | (.error e, storage) => (.error e, { o with storage })
  | .recover ns =>
    let table := (o.tables.get? ns).getD .none
    let (result, storage) := Saver.recover (Storage.recover table) (journal ns) o.storage
    (result.mapError .error, { o with storage })

/-- The planned source at work. -/
def startSource (dryRun : Bool) (tables : SortedMap TableRef) (p : SourcePlan) :
    Except Breach Source :=
  p.source.newRepo.map fun repo =>
    { info := p.source
      repo
      table := (tables.get? p.source.ns).getD .none
      saver :=
        if dryRun then none
        else p.options.map fun options => (Saver.create p.source.ns options.concurrence).run
      syncInterval := (p.options.map (·.syncInterval)).getD 0 }

/-- The planned sources at work, by namespace. -/
def startSources (dryRun : Bool) (tables : SortedMap TableRef) :
    List SourcePlan → Except Breach (SortedMap Source)
  | [] => .ok .empty
  | p :: plans =>
    match startSource dryRun tables p, startSources dryRun tables plans with
    | .ok source, .ok sources => .ok (sources.insert p.source.ns source)
    | .error b, _ | _, .error b => .error b

/-- Sets up all registered sources.  If that fails, the storage is handed back
with everything closed that was opened. -/
def setup (r : Registry) (c : Configurator) (journal : Journal) (storage : Storage) :
    Except (Failure × Storage) Cache :=
  match Plan.ofRegistry r c with
  | .error e => .error (.error e, storage)
  | .ok plan =>
    match runCalls (perform journal) plan.calls { storage } with
    | (.error e, o) => .error (e, o.storage.closeAll)
    | (.ok (), o) =>
      match startSources plan.dryRun o.tables plan.sources with
      | .error b => .error (.breach b, o.storage.closeAll)
      | .ok sources => .ok { sources, storage := o.storage, dryRun := plan.dryRun }

/-- Sets up what has to be set up. -/
def mustSetup (r : Registry) (c : Configurator) (journal : Journal) (storage : Storage) :
    Except (Failure × Storage) Cache :=
  match setup r c journal storage with
  | .error (.error e, storage) => .error (.breach (.setup e), storage)
  | result => result

/-! ## Sources -/

/-- The registered namespaces in order. -/
def namespaces (c : Cache) : List String := c.sources.keys

/-- The source that serves a namespace as a model. -/
def source (c : Cache) (model : Model) (ns : String) : Except Failure Source :=
  match c.sources.get? ns with
  | none => .error (.error (.unregisteredNamespace ns))
  | some source =>
    if source.info.model = model then .ok source else .error (.breach (.wrongModel ns))

/-- What an operation on a source can reach. -/
def scope (c : Cache) (source : Source) : Scope := ⟨source, c.instances, c.storage⟩

/-- The cache after an operation on the source of a namespace. -/
def adopt (c : Cache) (ns : String) (s : Scope) : Cache :=
  { c with
    sources := c.sources.insert ns s.source
    instances := s.instances
    storage := s.storage }

/-- An operation on the source that serves a namespace as a model. -/
def within {α : Type} (c : Cache) (model : Model) (ns : String)
    (op : Scope → Except Error α × Scope) : Except Failure α × Cache :=
  match c.source model ns with
  | .error e => (.error e, c)
  | .ok source =>
    let (result, s) := op (c.scope source)
    (result.mapError .error, c.adopt ns s)

/-! ## Operations -/

/-- A new instance of a record. -/
def create (c : Cache) (model : Model) (ns : String) (data : Json) (flags : CreateFlags) :
    Except Failure Nat × Cache :=
  c.within model ns (·.create data flags)

/-- The instance of a key, if there is one. -/
def get (c : Cache) (model : Model) (key : Key) : Except Failure (Option Nat) × Cache :=
  c.within model model.record.ns (·.get key)

/-- The instance of a key given by its parts, if there is one. -/
def getByParts (c : Cache) (model : Model) (ns : String) (parts : List KeyPart) :
    Except Failure (Option Nat) × Cache :=
  c.within model ns fun s =>
    match model.record.key.ofParts model.record.ns parts with
    | .error e => (.error e, s)
    | .ok key => s.get key

/-- The instances of several keys. -/
def getMulti (c : Cache) (model : Model) (keys : List Key) : Except Failure (List Nat) × Cache :=
  c.within model model.record.ns (·.getMulti keys)

/-- The instances of the rows that match a filter. -/
def find (c : Cache) (model : Model) (filter : Document) : Except Failure (List Nat) × Cache :=
  c.within model model.record.ns (·.find filter)

/-- Saves an instance and says whether there was something to commit. -/
def save (c : Cache) (model : Model) (id : Nat) : Except Failure Bool × Cache :=
  c.within model model.record.ns (·.save id)

/-- Saves an instance and waits for its flush. -/
def sync (c : Cache) (model : Model) (id : Nat) : Except Failure Unit × Cache :=
  c.within model model.record.ns (·.sync id)

/-- Forgets what is cached for a key. -/
def expire (c : Cache) (model : Model) (key : Key) : Except Failure Bool × Cache :=
  c.within model model.record.ns fun s =>
    let (expired, s) := s.expire key
    (.ok expired, s)

/-- An instance that the cache does not know. -/
def addStray (c : Cache) (record : Record) : Nat × Cache :=
  (c.instances.length, { c with instances := c.instances ++ [{ record }] })

/-- The cache with the record of an instance changed. -/
def setRecord (c : Cache) (id : Nat) (record : Record) : Cache :=
  { c with instances := c.instances.modify id fun i => { i with record } }

/-- An operation on the source of a namespace that is there. -/
def onSource (c : Cache) (ns : String) (op : Scope → Scope) : Cache :=
  match c.sources.get? ns with
  | none => c
  | some source => c.adopt ns (op (c.scope source))

/-- Waits for the flush of some sources, up to the first one that fails. -/
def syncNamespaces : List String → Cache → Except Error Unit × Cache
  | [], c => (.ok (), c)
  | ns :: rest, c =>
    match c.sources.get? ns with
    | none => syncNamespaces rest c
    | some source =>
      let (result, s) := (c.scope source).syncAll
      let c := c.adopt ns s
      match result with
      | .ok () => syncNamespaces rest c
      | .error e => (.error e, c)

/-- Waits until everything is flushed. -/
def syncAll (c : Cache) : Except Error Unit × Cache := syncNamespaces c.namespaces c

/-- Closes all savers, once. -/
def stop (c : Cache) : Cache :=
  if c.stopped then c
  else { c.namespaces.foldl (fun c ns => c.onSource ns Scope.close) c with stopped := true }

/-- The storage that is left when the cache is given up.  A consumer that held a batch when
it was stopped is done with that one, and takes the final one. -/
def shutdown (c : Cache) : Storage :=
  let c := c.stop
  (c.namespaces.foldl (fun c ns => c.onSource ns Scope.close) c).storage.closeAll

/-- Lets time pass until the deadlines have passed that are no longer than some
milliseconds. -/
def elapse (c : Cache) (milliseconds : Nat) : Cache :=
  c.sources.entries.foldl (fun c (ns, source) =>
    if source.syncInterval ≤ milliseconds then c.onSource ns Scope.elapse else c) c

/-- The number of rows that the memory table of a namespace has taken. -/
def written (c : Cache) (ns : String) : Nat :=
  ((c.storage.memoryTable? (c.storage.inMemory ns)).map (·.written)).getD 0

/-- Lets time pass unless the memory table of a namespace has taken enough rows. -/
def elapseUnlessWritten (c : Cache) (ns : String) (n milliseconds : Nat) : Cache :=
  if n ≤ c.written ns then c else c.elapse milliseconds

/-- Waits up to five seconds until the memory table of a namespace has taken a
number of rows, and tells whether it has.  Its own deadline passes first. -/
def awaitWritten (c : Cache) (ns : String) (n : Nat) : Bool × Cache :=
  let interval := ((c.sources.get? ns).map (·.syncInterval)).getD 0
  let c := (c.elapseUnlessWritten ns n (min interval 4999)).elapseUnlessWritten ns n 4999
  (n ≤ c.written ns, c)

/-- The number of commitments that are not flushed yet. -/
def ongoing (c : Cache) : Nat :=
  (c.sources.values.filterMap (·.saver)).foldl (fun n saver => n + saver.ongoing) 0

/-- How often the journal was used. -/
def journalCounts (c : Cache) : JournalCounts :=
  (c.sources.values.filterMap (·.saver)).foldl (fun counts s => counts.add s.journalCounts) {}

end Cache

end WriteBehind
