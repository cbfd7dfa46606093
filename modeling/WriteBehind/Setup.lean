import WriteBehind.Settings
import WriteBehind.Source

/-!
# Setup

Setup is planned before anything is done.  The plan resolves the options of
every source and fails at the first source, in the order of namespaces, that
lacks some.  From the plan follows the list of calls on the drivers, phase by
phase: every driver in use is initialised, every stored source is validated and
prepared, every store is opened once, every table is opened, and unless nothing
is to be written, every table gets back what a journal still holds.
`runCalls` makes the calls one by one until one fails.
-/

namespace WriteBehind

/-- A source with the options of its table; none for a source without storage. -/
structure SourcePlan where
  source : SourceMeta
  options : Option TableOptions

/-- What is to be set up. -/
structure Plan where
  /-- The sources in the order of their namespaces. -/
  sources : List SourcePlan := []
  /-- The drivers in use, with their options. -/
  drivers : SortedMap Json := .empty
  /-- The stores to open: driver and options by dao key. -/
  daos : SortedMap (String × Json) := .empty
  /-- Whether nothing is to be written. -/
  dryRun : Bool := false

/-- A call on a driver. -/
inductive Call where
  | init (driver : String) (options : Json)
  | validate (driver : String) (source : SourceMeta)
  | extend (driver : String) (source : SourceMeta)
  | openDao (daoKey driver : String) (options : Json)
  | openTable (daoKey : String) (source : SourceMeta)
  | recover (ns : String)

namespace Plan

/-- An entry that is there is kept. -/
def insertNew {α : Type} (m : SortedMap α) (key : String) (a : α) : SortedMap α :=
  if m.contains key then m else m.insert key a

/-- A plan with the stored source `m` and its options added. -/
def addStored (p : Plan) (c : Configurator) (m : SourceMeta) (options : TableOptions)
    (daoOptions : Json) : Plan :=
  { p with
    sources := p.sources ++ [⟨m, some options⟩]
    drivers := insertNew p.drivers m.driver (c.driverOptions m.driver)
    daos := insertNew p.daos options.daoKey (m.driver, daoOptions) }

/-- A plan with one more source. -/
def add (drivers : List String) (c : Configurator) (p : Plan) (m : SourceMeta) :
    Except Error Plan :=
  if m.driver ∉ drivers then .error (.unknownDriver m.driver)
  else if m.driver = noStorage then .ok { p with sources := p.sources ++ [⟨m, none⟩] }
  else
    match c.tableOptions m.driver m.ns with
    | none => .error (.missingTableOptions m.driver m.ns)
    | some options =>
      if options.daoKey.isEmpty then .error (.missingDaoKey m.ns)
      else
        match c.daoOptions options.daoKey with
        | none => .error (.missingDaoOptions options.daoKey)
        | some daoOptions => .ok (p.addStored c m options daoOptions)

/-- The plan for some sources, taken one by one. -/
def addAll (drivers : List String) (c : Configurator) :
    Plan → List SourceMeta → Except Error Plan
  | p, [] => .ok p
  | p, m :: sources =>
    match p.add drivers c m with
    | .ok p => addAll drivers c p sources
    | .error e => .error e

/-- The plan for all registered sources. -/
def ofRegistry (r : Registry) (c : Configurator) : Except Error Plan :=
  addAll r.drivers c { dryRun := c.dryRun } r.sources.values

/-- The sources that a driver stores, with their options. -/
def stored (p : Plan) : List (SourceMeta × TableOptions) :=
  p.sources.filterMap fun s => s.options.map (s.source, ·)

/-- The calls that carry a plan out, in their order. -/
def calls (p : Plan) : List Call :=
  (p.drivers.entries.map fun (driver, options) => .init driver options) ++
  (p.stored.flatMap fun (m, _) => [.validate m.driver m, .extend m.driver m]) ++
  (p.daos.entries.map fun (daoKey, driver, options) => .openDao daoKey driver options) ++
  (p.stored.map fun (m, options) => .openTable options.daoKey m) ++
  (if p.dryRun then [] else p.stored.map fun (m, _) => .recover m.ns)

end Plan

/-- Makes calls one by one.  The first one that fails is the last one made. -/
def runCalls {γ σ ε : Type} (perform : γ → σ → Except ε Unit × σ) :
    List γ → σ → Except ε Unit × σ
  | [], s => (.ok (), s)
  | call :: calls, s =>
    match perform call s with
    | (.ok (), s) => runCalls perform calls s
    | (.error e, s) => (.error e, s)

end WriteBehind
