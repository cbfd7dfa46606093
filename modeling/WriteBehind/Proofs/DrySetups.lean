import WriteBehind.Proofs.DryRuns
import WriteBehind.Proofs.TableAgreement

/-!
# Setups for dry runs

A setup for a dry run makes the same plan and the same calls, but for the journals, which it
does not hand over, and starts the same sources without savers (`Cache.setup_dry`).  No call
of a setup changes a row or makes a table refuse anything (`Storage.Prepared`).  So both runs
start from the rows that were there, and `Cache.Rehearsable.dry_run` puts the setups and the
runs together.
-/

namespace WriteBehind

/-! ## Plans -/

/-- The same settings for a dry run. -/
def Configurator.dry (c : Configurator) : Configurator := { c with dryRun := true }

namespace Plan

/-- The same plan for a dry run. -/
def dry (p : Plan) : Plan := { p with dryRun := true }

theorem add_dry (drivers : List String) (c : Configurator) (p : Plan) (m : SourceMeta) :
    p.dry.add drivers c.dry m = (p.add drivers c m).map dry := by
  have hoptions : c.dry.tableOptions = c.tableOptions := rfl
  have hdaos : c.dry.daoOptions = c.daoOptions := rfl
  simp only [Plan.add, hoptions, hdaos]
  split
  · rfl
  split
  · rfl
  cases c.tableOptions m.driver m.ns with
  | none => rfl
  | some options =>
      dsimp only
      split
      · rfl
      · cases c.daoOptions options.daoKey <;> rfl

theorem addAll_dry (drivers : List String) (c : Configurator) (p : Plan) (ms : List SourceMeta) :
    p.dry.addAll drivers c.dry ms = (p.addAll drivers c ms).map dry := by
  induction ms generalizing p with
  | nil => rfl
  | cons m ms ih =>
      rw [addAll, addAll, add_dry]
      cases p.add drivers c m with
      | error e => rfl
      | ok p' => exact ih p'

theorem ofRegistry_dry (r : Registry) (c : Configurator) :
    ofRegistry r c.dry = (ofRegistry r c).map dry :=
  addAll_dry r.drivers c { dryRun := c.dryRun } r.sources.values

/-- A dry run hands no journal over, and makes all other calls. -/
theorem calls_eq_dry (p : Plan) :
    p.calls = p.dry.calls ++ if p.dryRun then [] else p.stored.map fun s => .recover s.1.ns := by
  simp only [calls, dry, if_true, List.append_nil]
  rfl

theorem dryRun_add {drivers : List String} {c : Configurator} {p p' : Plan} {m : SourceMeta}
    (h : p.add drivers c m = .ok p') : p'.dryRun = p.dryRun := by
  rw [Plan.add] at h
  split at h
  · cases h
  split at h
  · rw [← Except.ok.inj h]
  split at h
  · cases h
  split at h
  · cases h
  split at h
  · cases h
  · rw [← Except.ok.inj h]
    rfl

theorem dryRun_addAll {drivers : List String} {c : Configurator} {p p' : Plan}
    {ms : List SourceMeta} (h : p.addAll drivers c ms = .ok p') : p'.dryRun = p.dryRun := by
  induction ms generalizing p with
  | nil => rw [← Except.ok.inj h]
  | cons m ms ih =>
      rw [addAll] at h
      split at h
      next next hnext => exact (ih h).trans (dryRun_add hnext)
      · cases h

end Plan

section Calls

variable {γ σ ε : Type} {perform : γ → σ → Except ε Unit × σ} {more : List γ}

theorem runCalls_of_idle (hidle : ∀ call ∈ more, ∀ s, perform call s = (.ok (), s)) (s : σ) :
    runCalls perform more s = (.ok (), s) := by
  induction more with
  | nil => rfl
  | cons call more ih =>
      simp only [runCalls, hidle call List.mem_cons_self]
      exact ih fun call' hmem => hidle call' (List.mem_cons_of_mem call hmem)

/-- Calls that do nothing may follow. -/
theorem runCalls_append_of_idle (hidle : ∀ call ∈ more, ∀ s, perform call s = (.ok (), s))
    (calls : List γ) (s : σ) :
    runCalls perform (calls ++ more) s = runCalls perform calls s := by
  induction calls generalizing s with
  | nil => exact runCalls_of_idle hidle s
  | cons call calls ih =>
      rw [List.cons_append, runCalls, runCalls]
      split
      · exact ih _
      · rfl

end Calls

/-! ## Sources -/

namespace Cache

variable {r : Registry} {c : Configurator} {journal : Journal} {storage : Storage}

/-- A journal that holds nothing is nothing to recover. -/
theorem perform_recover_of_empty (hempty : ∀ ns, journal ns = .ok []) (ns : String) (o : Opened) :
    perform journal (.recover ns) o = (.ok (), o) := by
  simp only [perform, hempty, Saver.recover]
  rfl

theorem startSource_dry (tables : SortedMap TableRef) (p : SourcePlan) :
    startSource true tables p = (startSource false tables p).map Source.dry := by
  simp only [startSource]
  cases p.source.newRepo <;> rfl

theorem startSources_dry (tables : SortedMap TableRef) (plans : List SourcePlan) :
    startSources true tables plans =
      (startSources false tables plans).map (·.map Source.dry) := by
  induction plans with
  | nil => rfl
  | cons p plans ih =>
      rw [startSources, startSources, startSource_dry, ih]
      cases startSource false tables p with
      | error b => rfl
      | ok source =>
          cases startSources false tables plans with
          | error b => rfl
          | ok sources =>
              simp only [Except.map]
              exact congrArg _ (SortedMap.map_insert Source.dry sources p.source.ns source).symm

/-- Unless a journal is to be recovered, a setup for a dry run does what any other does, but
starts no savers. -/
theorem setup_dry (hlive : c.dryRun = false) (hempty : ∀ ns, journal ns = .ok []) :
    setup r c.dry journal storage =
      (setup r c journal storage).map fun live => live.dry live.storage := by
  rw [setup, setup, Plan.ofRegistry_dry]
  cases hplan : Plan.ofRegistry r c with
  | error e => rfl
  | ok plan =>
      have hdryRun : plan.dryRun = false := (Plan.dryRun_addAll hplan).trans hlive
      have hidle : ∀ call ∈ if plan.dryRun then [] else plan.stored.map fun s => .recover s.1.ns,
          ∀ o, perform journal call o = (.ok (), o) := by
        intro call hcall o
        rw [hdryRun, if_neg Bool.false_ne_true] at hcall
        obtain ⟨s, -, rfl⟩ := List.mem_map.mp hcall
        exact perform_recover_of_empty hempty _ o
      have hcalls : runCalls (perform journal) plan.calls { storage } =
          runCalls (perform journal) plan.dry.calls { storage } := by
        rw [plan.calls_eq_dry]
        exact runCalls_append_of_idle hidle _ _
      have hstarts : ∀ tables, startSources plan.dry.dryRun tables plan.dry.sources =
          (startSources plan.dryRun tables plan.sources).map (·.map Source.dry) := by
        intro tables
        rw [hdryRun]
        exact startSources_dry tables plan.sources
      simp only [Except.map, hcalls]
      cases runCalls (perform journal) plan.dry.calls { storage } with
      | mk result o =>
          cases result with
          | error e => rfl
          | ok u =>
              simp only [hstarts]
              cases startSources plan.dryRun o.tables plan.sources <;> rfl

end Cache

/-! ## Rows -/

namespace Storage

/-- No row of any table has changed, and no table has come to refuse anything. -/
structure Prepared (s s' : Storage) : Prop where
  rows : ∀ table, s'.rows table = s.rows table
  accepts : ∀ table, s.Accepts table → s'.Accepts table

variable {s s' s'' : Storage}

theorem Prepared.refl (s : Storage) : Prepared s s := ⟨fun _ => rfl, fun _ => id⟩

theorem Prepared.trans (h : Prepared s s') (h' : Prepared s' s'') : Prepared s s'' :=
  ⟨fun table => (h'.rows table).trans (h.rows table),
    fun table haccepts => h'.accepts table (h.accepts table haccepts)⟩

/-- What a table refers to is as it was, but for a new table in memory. -/
theorem prepared_of_content (h : ∀ table, s'.content table = s.content table ∨
    ∃ t : MemoryTable, s.memoryTable? table = none ∧ s'.memoryTable? table = some t ∧
      t.rows = .empty ∧ t.failBudget = 0) : Prepared s s' := by
  refine ⟨fun table => ?_, fun table haccepts => ?_⟩
  · rcases h table with hsame | ⟨t, hnone, hsome, hrows, -⟩
    · exact rows_congr hsame
    · cases table with
      | none | file path name => cases hsome
      | memory ns | audited ns => simp only [rows, hnone, hsome, Option.map, Option.getD, hrows]
  · rcases h table with hsame | ⟨t, -, hsome, -, hbudget⟩
    · exact haccepts.congr hsame
    · intro t' ht'
      rw [← Option.some.inj (hsome.symm.trans ht')]
      exact hbudget

theorem prepared_of_same (hmemory : s'.memory.tables = s.memory.tables)
    (haudited : s'.audited.store.tables = s.audited.store.tables)
    (hfiles : ∀ path name, s'.files.written path name = s.files.written path name) :
    Prepared s s' := by
  refine prepared_of_content fun table => .inl ?_
  cases table with
  | none => rfl
  | memory ns => simp only [content, memoryTable?, hmemory]
  | audited ns => simp only [content, memoryTable?, haudited]
  | file path name => simp only [content, memoryTable?, hfiles]

theorem prepared_ask (s : Storage) (stage : Stage) : Prepared s (s.ask stage).2 :=
  prepared_of_same rfl rfl fun _ _ => rfl

theorem prepared_init (s : Storage) (driver : Driver) (options : Json) :
    Prepared s (s.init driver options).2 := by
  cases driver with
  | none | file => exact .refl s
  | memory => exact prepared_of_same rfl rfl fun _ _ => rfl
  | audited => exact prepared_ask s _

theorem prepared_validate (s : Storage) (driver : Driver) (m : SourceMeta) :
    Prepared s (s.validate driver m).2 := by
  cases driver with
  | none => exact .refl s
  | memory | file =>
      rw [validate]
      split <;> exact .refl s
  | audited => exact prepared_ask s _

theorem prepared_extend (s : Storage) (driver : Driver) (m : SourceMeta) :
    Prepared s (s.extend driver m).2 := by
  cases driver with
  | none | memory | file => exact .refl s
  | audited => exact prepared_ask s _

theorem tables_openDao (m : MemoryStore) (options : Json) :
    (m.openDao options).2.tables = m.tables := by
  rw [MemoryStore.openDao]
  split <;> rfl

theorem prepared_openDao (s : Storage) (driver : Driver) (options : Json) :
    Prepared s (s.openDao driver options).2 := by
  cases driver with
  | none => exact .refl s
  | memory =>
      have htables := tables_openDao s.memory options
      simp only [openDao]
      split
      · exact prepared_of_same htables rfl fun _ _ => rfl
      · exact .refl s
  | file => exact prepared_of_same rfl rfl (s.files.written_openDao options)
  | audited =>
      have hask := prepared_ask s (.dao options)
      simp only [openDao]
      split
      next s' hs' =>
        rw [hs'] at hask
        have htables := tables_openDao s'.audited.store options
        split
        · exact hask.trans (prepared_of_same rfl htables fun _ _ => rfl)
        · exact hask
      next s' hs' =>
        rw [hs'] at hask
        exact hask

/-- A table in memory is the one that is there, or a new one. -/
theorem get?_openTable (m : MemoryStore) (ns name k : String) :
    (m.openTable ns name).tables.get? k = m.tables.get? k ∨
      m.tables.get? k = none ∧ (m.openTable ns name).tables.get? k = some { name } := by
  cases hns : m.tables.get? ns with
  | some t =>
      simp only [MemoryStore.openTable, Memo.getOrCreate, hns]
      exact .inl trivial
  | none =>
      simp only [MemoryStore.openTable, Memo.getOrCreate, hns, SortedMap.get?_insert]
      by_cases hk : ns = k
      · subst hk
        rw [if_pos rfl]
        exact .inr ⟨hns, rfl⟩
      · rw [if_neg hk]
        exact .inl rfl

theorem prepared_openTable (s : Storage) (dao : DaoRef) (m : SourceMeta) :
    Prepared s (s.openTable dao m).2 := by
  cases dao with
  | none => exact .refl s
  | memory =>
      refine prepared_of_content fun table => ?_
      cases table with
      | none | audited ns | file path name => exact .inl rfl
      | memory ns =>
          rcases get?_openTable s.memory m.ns m.table ns with hsame | ⟨hnone, hsome⟩
          · exact .inl (congrArg (·, SortedMap.empty) hsame)
          · exact .inr ⟨_, hnone, hsome, rfl, rfl⟩
  | file path =>
      exact prepared_of_same rfl rfl (s.files.written_openTable path m.ns m.table)
  | audited =>
      have hask := prepared_ask s (.table m.ns)
      simp only [openTable]
      split
      next s' hs' =>
        rw [hs'] at hask
        refine hask.trans (prepared_of_content fun table => ?_)
        cases table with
        | none | memory ns | file path name => exact .inl rfl
        | audited ns =>
            rcases get?_openTable s'.audited.store m.ns m.table ns with hsame | ⟨hnone, hsome⟩
            · exact .inl (congrArg (·, SortedMap.empty) hsame)
            · exact .inr ⟨_, hnone, hsome, rfl, rfl⟩
      next s' hs' =>
        rw [hs'] at hask
        exact hask

end Storage

namespace Cache

variable {r : Registry} {c : Configurator} {journal : Journal} {storage : Storage}
  {plan : Plan} {final : Opened} {live : Cache}

theorem prepared_perform (hempty : ∀ ns, journal ns = .ok []) (call : Call) (o : Opened) :
    o.storage.Prepared (perform journal call o).2.storage := by
  have honDriver : ∀ (name : String) (f : Driver → Storage → Except Error Unit × Storage),
      (∀ driver s, Storage.Prepared s (f driver s).2) →
        o.storage.Prepared (onDriver name o f).2.storage := by
    intro name f hf
    rw [onDriver]
    split
    · exact .refl o.storage
    · exact hf _ o.storage
  cases call with
  | init name options => exact honDriver name _ fun driver s => s.prepared_init driver options
  | validate name m => exact honDriver name _ fun driver s => s.prepared_validate driver m
  | extend name m => exact honDriver name _ fun driver s => s.prepared_extend driver m
  | openDao daoKey name options =>
      simp only [perform]
      split
      · exact .refl o.storage
      next driver _ =>
        have hopen := o.storage.prepared_openDao driver options
        split <;> next hresult => rw [hresult] at hopen; exact hopen
  | openTable daoKey m =>
      simp only [perform]
      split
      · exact .refl o.storage
      next dao _ =>
        have hopen := o.storage.prepared_openTable dao m
        split <;> next hresult => rw [hresult] at hopen; exact hopen
  | recover ns =>
      rw [perform_recover_of_empty hempty]
      exact .refl o.storage

/-- A setup changes no row unless a journal is to be recovered. -/
theorem Built.prepared (h : Built r c journal storage plan final live)
    (hempty : ∀ ns, journal ns = .ok []) : storage.Prepared live.storage := by
  rw [h.storage]
  refine runCalls_keeps (P := fun o => storage.Prepared o.storage) h.made ?_ (.refl storage)
  intro call _ o o' hperform ho
  have hprepared := prepared_perform hempty call o
  rw [hperform] at hprepared
  exact ho.trans hprepared

/-- A source that has just been set up: it is registered, nothing is cached, and its workers
have nothing to do. -/
theorem Built.origin (h : Built r c journal storage plan final live) (hr : r.Arises)
    {ns : String} {source : Source} (hget : live.sources.get? ns = some source) :
    source.info ∈ r.sources.values ∧ source.info.ns = ns ∧
      source.repo.volatile = source.info.model.volatile ∧
      ∀ w ∈ (live.scope source).ledger.workers, w = ({} : Worker).start := by
  obtain ⟨p, hp, hns, hstart⟩ := (get?_startSources (h.nodup_namespaces hr) h.started).mp hget
  obtain ⟨hinfo, hrepo, -, hsaver⟩ := startSource_eq_ok hstart
  rw [hinfo]
  refine ⟨?_, hns, (Repo.get_of_create hrepo ⟨.int 0, []⟩).1, fun w hw => ?_⟩
  · rw [(Plan.lists_of_registry h.planned).sources] at hp
    obtain ⟨m, hm, rfl⟩ := List.mem_map.mp hp
    exact hm
  · rw [Scope.ledger, scope, hsaver] at hw
    split at hw
    · cases hw
    · cases hoptions : p.options with
      | none =>
          rw [hoptions] at hw
          cases hw
      | some options =>
          rw [hoptions] at hw
          exact (workers_run p.source.ns options.concurrence).2 w hw

/-! ## Rehearsals -/

/-- A cache that was set up to write, for sources that are not volatile and of which no two
share a table, with nothing to recover and with tables that refuse nothing. -/
structure Comparable (r : Registry) (c : Configurator) (journal : Journal) (storage : Storage)
    (live : Cache) : Prop where
  arises : r.Arises
  keeps : ∀ m ∈ r.sources.values, m.model.volatile = false
  apart : ∀ m ∈ r.sources.values, ∀ m' ∈ r.sources.values, m.ns ≠ m'.ns →
    ¬ c.Shares r.sources.values m m'
  writes : c.dryRun = false
  empty : ∀ ns, journal ns = .ok []
  setup : setup r c journal storage = .ok live
  accepts : ∀ ns source, live.sources.get? ns = some source → storage.Accepts source.table

/-- Moreover the tables file all records that are in use under their own keys. -/
structure Rehearsable (inUse : Model → Key → Prop) (r : Registry) (c : Configurator)
    (journal : Journal) (storage : Storage) (live : Cache) : Prop
    extends Comparable r c journal storage live where
  filed : ∀ ns source, live.sources.get? ns = some source → (source.deposit inUse).Filed storage

variable {inUse : Model → Key → Prop}

theorem Rehearsable.moored (h : Rehearsable inUse r c journal storage live) :
    live.Moored inUse live.storage := by
  obtain ⟨plan, final, hbuilt⟩ := exists_built h.setup
  have hprepared := hbuilt.prepared h.empty
  refine ⟨fun ns source hget => (hbuilt.origin h.arises hget).2.1, fun ns source hget => ?_,
    fun ns ns' source source' hne hget hget' => ?_, rfl⟩
  · obtain ⟨hm, -, hvolatile, hworkers⟩ := hbuilt.origin h.arises hget
    refine ⟨Scope.pins_of_fresh rfl rfl (hvolatile.trans (h.keeps _ hm)) hworkers
      hbuilt.instances (hprepared.accepts _ (h.accepts ns source hget)), ?_⟩
    obtain ⟨hdistinct, hown⟩ := h.filed ns source hget
    refine ⟨hdistinct, fun key row data hused hrow => ?_⟩
    rw [hprepared.rows] at hrow
    exact hown key row data hused hrow
  · obtain ⟨hm, rfl, -⟩ := hbuilt.origin h.arises hget
    obtain ⟨hm', rfl, -⟩ := hbuilt.origin h.arises hget'
    by_contra hshared
    obtain ⟨hsame, hsome⟩ := not_or.mp hshared
    refine h.apart _ hm _ hm' hne ((hbuilt.shares_iff h.arises hm hm' hne hget hget').mpr ?_)
    exact ⟨not_not.mp hsame, fun hnone => hsome ((not_not.mp hsame).symm.trans hnone)⟩

/-- A dry run is a rehearsal of a live one: at the same settings and on the same rows, every
operation answers what it answers in the live run, whatever the workers of that one have done
in between.  All handles have the same data and events in the end but for their places in
batches, and no row has changed.  A flush that someone waits for is not kept waiting for
good. -/
theorem Rehearsable.dry_run (h : Rehearsable inUse r c journal storage live) :
    ∃ dry, Cache.setup r c.dry journal storage = .ok dry ∧ ∀ l d, Twins inUse live dry l d →
      (∀ op, l.Admits inUse op → (d.operate op).1 = (l.operate op).1) ∧
      d.instances = l.instances.map Instance.unplaced ∧
      (∀ table, d.storage.rows table = storage.rows table) ∧
      ∃ l', Twins inUse live dry l' d ∧ ∀ ns source, l'.sources.get? ns = some source →
        ∀ hash, (l'.scope source).Rests hash := by
  refine ⟨live.dry live.storage, ?_, fun l d htwins => ?_⟩
  · rw [setup_dry h.writes h.empty, h.setup]
    rfl
  obtain ⟨hmoored, hsame, hd⟩ := htwins.moored h.moored rfl
  refine ⟨fun op hadmits => ?_, ?_, fun table => ?_, htwins.exists_rested h.moored rfl⟩
  · obtain ⟨-, storage', -, hoperate⟩ := hmoored.operate hsame hadmits
    dsimp only at hoperate
    rw [hd, hoperate]
  · rw [hd]
    rfl
  · obtain ⟨plan, final, hbuilt⟩ := exists_built h.setup
    rw [hsame.rows table, (hbuilt.prepared h.empty).rows table]

end Cache

/-! ## Records in memory -/

namespace Sample

/-- Records of one model, kept in memory. -/
def soleRegistry (model : Model) : Registry where
  sources := .ofList [(model.record.ns, .ofDesc model { driver := "memory", table := "rows" })]
  drivers := [noStorage, "memory"]

/-- A store in memory. -/
def inMemoryOnly : Configurator where
  dryRun := false
  driverOptions _ := .obj []
  daoOptions daoKey := if daoKey = "m" then some (.obj []) else none
  tableOptions _ _ := some { daoKey := "m" }

/-- A table in memory with rows. -/
def shelf (ns : String) (rows : Rows) : Storage where
  memory := { tables := SortedMap.empty.insert ns { name := "rows", rows } }

/-- The plan for records in memory. -/
def solePlan (model : Model) : Plan :=
  (Plan.ofRegistry (soleRegistry model) inMemoryOnly).toOption.getD {}

/-- All calls are made. -/
def soleOpened (model : Model) (rows : Rows) : Cache.Opened :=
  (runCalls (Cache.perform noJournal) (solePlan model).calls
    { storage := shelf model.record.ns rows }).2

/-- Records of one model in memory. -/
def soleCache (model : Model) (rows : Rows) : Cache :=
  .ofPlan (solePlan model) (soleOpened model rows)

theorem sources_soleCache {model : Model} {rows : Rows} {ns : String} {source : Source}
    (hget : (soleCache model rows).sources.get? ns = some source) :
    source.info.model = model ∧ source.table = .memory model.record.ns := by
  have htables : (soleOpened model rows).tables =
      SortedMap.empty.insert model.record.ns (.memory model.record.ns) := rfl
  have hsole : ∃ own, (soleCache model rows).sources =
      SortedMap.empty.insert model.record.ns own ∧ own.info.model = model ∧
        own.table = ((soleOpened model rows).tables.get? model.record.ns).getD .none :=
    ⟨_, rfl, rfl, rfl⟩
  obtain ⟨own, hsources, hmodel, htable⟩ := hsole
  rw [htables, SortedMap.get?_insert, if_pos rfl, Option.getD_some] at htable
  rw [hsources, SortedMap.get?_insert] at hget
  split at hget
  · exact Option.some.inj hget ▸ ⟨hmodel, htable⟩
  · cases hget

theorem comparable_sole {model : Model} (hkeeps : model.volatile = false) (rows : Rows) :
    Cache.Comparable (soleRegistry model) inMemoryOnly noJournal (shelf model.record.ns rows)
      (soleCache model rows) where
  arises := (Registry.Arises.empty.driver "memory").source model
    { driver := "memory", table := "rows" } rfl
  keeps m hm := by
    rw [List.mem_singleton.mp hm]
    exact hkeeps
  apart m hm m' hm' hne := by
    rw [List.mem_singleton.mp hm, List.mem_singleton.mp hm'] at hne
    exact absurd rfl hne
  writes := rfl
  empty _ := rfl
  setup := Cache.setup_of_made rfl rfl rfl
  accepts ns source hget := by
    intro t ht
    rw [(sources_soleCache hget).2, Storage.memoryTable?, shelf, SortedMap.get?_insert,
      if_pos rfl] at ht
    rw [← Option.some.inj ht]

/-- The key of a hero. -/
def heroNumber (id : Int64) : Key := ⟨.int id, []⟩

/-- The row of a hero. -/
def heroDocument (id level : Int) : Document :=
  .ofList [("id", .int id), ("name", .str "Ann"), ("level", .int level)]

/-- The first hero is on the shelf. -/
def heroRows : Rows := SortedMap.empty.insert "1" (heroDocument 1 3)

/-- Only the first hero is asked for. -/
def AsksFirst (_ : Model) (key : Key) : Prop := key = heroNumber 1

theorem rehearsable_hero : Cache.Rehearsable AsksFirst (soleRegistry hero) inMemoryOnly noJournal
    (shelf "hero" heroRows) (soleCache hero heroRows) where
  toComparable := comparable_sole rfl heroRows
  filed ns source hget := by
    obtain ⟨hmodel, htable⟩ := sources_soleCache hget
    refine ⟨fun _ key key' hkey hkey' _ => hkey.trans hkey'.symm, ?_⟩
    rintro key row data rfl hrow hread
    have hkey : (hero.record.read (.ofDocument (heroDocument 1 3))).toOption.map
        hero.record.keyOf = some (heroNumber 1) := by
      decide +kernel
    rw [Source.deposit, htable] at hrow
    rw [← Option.some.inj hrow, Source.deposit, Deposit.type, hmodel] at hread
    rw [hread] at hkey
    rw [Source.deposit, Deposit.type, hmodel]
    exact Option.some.inj hkey

/-- The first hero is fetched, rises, is saved and goes to the table. -/
def heroRise : List Operation :=
  [.get hero (heroNumber 1), .edit 0 (.update (heroOf 1 5) heroLevel), .save hero 0, .syncAll]

theorem admits_heroRise : (soleCache hero heroRows).AdmitsAll AsksFirst heroRise :=
  ⟨rfl, Cache.admits_edit (by decide +kernel), Cache.admits_save (by decide +kernel),
    Cache.admits_syncAll (by decide +kernel), trivial⟩

/-- The row on the shelf is the old one still, and the hero has risen all the same. -/
theorem dry_run_heroRise :
    ∃ dry, Cache.setup (soleRegistry hero) inMemoryOnly.dry noJournal (shelf "hero" heroRows) =
        .ok dry ∧
      (((soleCache hero heroRows).operateAll heroRise).storage.rows (.memory "hero")).get? "1" =
        some (heroDocument 1 5) ∧
      ((dry.operateAll heroRise).storage.rows (.memory "hero")).get? "1" =
        some (heroDocument 1 3) ∧
      (dry.operateAll heroRise).instances =
        ((soleCache hero heroRows).operateAll heroRise).instances.map Instance.unplaced ∧
      ((dry.operateAll heroRise).operate (.get hero (heroNumber 1))).1 =
        (((soleCache hero heroRows).operateAll heroRise).operate (.get hero (heroNumber 1))).1 := by
  obtain ⟨dry, hdry, hrun⟩ := Cache.Rehearsable.dry_run rehearsable_hero
  obtain ⟨hanswers, hinstances, hrows, -⟩ :=
    hrun _ _ (Cache.Twins.start.operateAll admits_heroRise)
  refine ⟨dry, hdry, ?_, ?_, hinstances, hanswers _ rfl⟩
  · cbv
  · rw [hrows]
    rfl

/-! ### Rows that are not filed under their own keys -/

/-- What was found, if anything was looked for. -/
def found? : Answer → Option (Option Nat)
  | .found (.ok id) => some id
  | _ => none

/-- Whatever is in use, a live run and a dry run of the same operations differ in what they find
in the end. -/
def Departs (model : Model) (rows : Rows) (ops : List Operation) (key : Key) : Prop :=
  ∃ dry, Cache.Comparable (soleRegistry model) inMemoryOnly noJournal
      (shelf model.record.ns rows) (soleCache model rows) ∧
    Cache.setup (soleRegistry model) inMemoryOnly.dry noJournal (shelf model.record.ns rows) =
      .ok dry ∧
    Cache.Twins (fun _ _ => True) (soleCache model rows) dry
      ((soleCache model rows).operateAll ops) (dry.operateAll ops) ∧
    ((dry.operateAll ops).operate (.get model key)).1 ≠
      (((soleCache model rows).operateAll ops).operate (.get model key)).1

theorem departs_of_found {model : Model} (hkeeps : model.volatile = false) {rows : Rows}
    {ops : List Operation} {key : Key}
    (hadmits : (soleCache model rows).AdmitsAll (fun _ _ => True) ops)
    (hfound : found? (((soleCache model rows).dry (soleCache model rows).storage).operateAll ops
        |>.operate (.get model key)).1 ≠
      found? (((soleCache model rows).operateAll ops).operate (.get model key)).1) :
    Departs model rows ops key := by
  have hlive := comparable_sole hkeeps rows
  refine ⟨(soleCache model rows).dry (soleCache model rows).storage, hlive, ?_,
    Cache.Twins.start.operateAll hadmits, fun hsame => hfound ?_⟩
  · rw [Cache.setup_dry hlive.writes hlive.empty, hlive.setup]
    rfl
  · rw [hsame]

/-- The second hero is on the shelf twice, once in the place of the first. -/
def misfiledRows : Rows :=
  (SortedMap.empty.insert "1" (heroDocument 2 3)).insert "2" (heroDocument 2 3)

/-- What stands in the place of the first hero is deleted. -/
def heroFall : List Operation :=
  [.get hero (heroNumber 1), .edit 0 .delete, .save hero 0, .syncAll]

/-- A book with a key of two texts. -/
def book : Model where
  record :=
    { ns := "book"
      layout := .record [⟨"hall", .text, .required⟩, ⟨"shelf", .text, .required⟩]
      fields := [keyField 0 "hall", keyField 1 "shelf"]
      key :=
        { title := "BookPk", first := { name := "hall", kind := .text }
          rest := [{ name := "shelf", kind := .text }] } }

/-- A book comes into the library. -/
def bookArrival : List Operation :=
  [.create book (.mkObj [("hall", .str "a/b"), ("shelf", .str "c")]) false, .save book 0, .syncAll]

/-- The deletion in the place of the first hero takes the second one away, of which only the dry
run still finds a row.  And a book is found under a key that its own cannot be told from by the
text, but only once it is in the table. -/
theorem exists_departure :
    Departs hero misfiledRows heroFall (heroNumber 2) ∧
      Departs book .empty bookArrival ⟨.text "a", [some (.text "b/c")]⟩ := by
  constructor
  · refine departs_of_found rfl ?_ (by decide +kernel)
    exact ⟨trivial, Cache.admits_edit (by decide +kernel), Cache.admits_save (by decide +kernel),
      Cache.admits_syncAll (by decide +kernel), trivial⟩
  · refine departs_of_found rfl ?_ (by decide +kernel)
    exact ⟨trivial, Cache.admits_save (by decide +kernel), Cache.admits_syncAll (by decide +kernel),
      trivial⟩

end Sample

end WriteBehind
