import Mathlib
import WriteBehind.Proofs.SetupCalls
import WriteBehind.Proofs.StoredRecords
import WriteBehind.Sample

/-!
# How sources come to their tables

A setup that succeeds has made all calls of its plan.  So each of its stored sources was
accepted by its own driver and has a table of the store that was opened with the options of
its dao key (`Cache.Installed`).  That store need not be one of the source's own driver:
sources of several drivers may name one dao key, and then all of them get tables of the
driver of the first one.  Every source is served by its own driver exactly if no dao key is
named by sources of different drivers (`Cache.setup_serves`).
-/

namespace WriteBehind

/-! ## Setups -/

/-- No dao key is named by sources of different drivers. -/
def Configurator.OneDriverPerDao (c : Configurator) (ms : List SourceMeta) : Prop :=
  ∀ m ∈ ms, ∀ m' ∈ ms, m.isPersisted = true → m'.isPersisted = true →
    ∀ options options', c.tableOptions m.driver m.ns = some options →
      c.tableOptions m'.driver m'.ns = some options' → options.daoKey = options'.daoKey →
        m.driver = m'.driver

theorem Configurator.firstUnder_eq_some {c : Configurator} {daoKey : String}
    {ms : List SourceMeta} {first : SourceMeta} (h : c.firstUnder daoKey ms = some first) :
    first ∈ ms ∧ first.isPersisted = true ∧
      ∃ options, c.tableOptions first.driver first.ns = some options ∧
        options.daoKey = daoKey := by
  have htest := List.find?_some h
  rw [Bool.and_eq_true, Option.any_eq_true] at htest
  obtain ⟨hstored, options, hoptions, hkey⟩ := htest
  exact ⟨List.mem_of_find?_eq_some h, hstored, options, hoptions, beq_iff_eq.mp hkey⟩

namespace Cache

theorem get?_startSources {dryRun : Bool} {tables : SortedMap TableRef} {plans : List SourcePlan}
    {sources : SortedMap Source} (hdistinct : (plans.map (·.source.ns)).Nodup)
    (h : startSources dryRun tables plans = .ok sources) {ns : String} {source : Source} :
    sources.get? ns = some source ↔
      ∃ p ∈ plans, p.source.ns = ns ∧ startSource dryRun tables p = .ok source := by
  induction plans generalizing sources with
  | nil =>
      obtain rfl := Except.ok.inj h
      simp
  | cons p plans ih =>
      obtain ⟨hfresh, hrest⟩ := List.nodup_cons.mp hdistinct
      rw [startSources] at h
      split at h
      next own others hown hothers =>
        obtain rfl := Except.ok.inj h
        rw [SortedMap.get?_insert]
        by_cases hns : p.source.ns = ns
        · rw [if_pos hns]
          constructor
          · intro hsome
            obtain rfl := Option.some.inj hsome
            exact ⟨p, List.mem_cons_self, hns, hown⟩
          · rintro ⟨q, hq, hqns, hstart⟩
            rcases List.mem_cons.mp hq with rfl | hq
            · rw [hown] at hstart
              rw [Except.ok.inj hstart]
            · exact absurd (List.mem_map.mpr ⟨q, hq, hqns.trans hns.symm⟩) hfresh
        · rw [if_neg hns, ih hrest hothers]
          constructor
          · rintro ⟨q, hq, hqns, hstart⟩
            exact ⟨q, List.mem_cons_of_mem p hq, hqns, hstart⟩
          · rintro ⟨q, hq, hqns, hstart⟩
            rcases List.mem_cons.mp hq with rfl | hq
            · exact absurd hqns hns
            · exact ⟨q, hq, hqns, hstart⟩
      · cases h
      · cases h

theorem exists_startSource {dryRun : Bool} {tables : SortedMap TableRef}
    {plans : List SourcePlan} {sources : SortedMap Source}
    (h : startSources dryRun tables plans = .ok sources) {p : SourcePlan} (hp : p ∈ plans) :
    ∃ source, startSource dryRun tables p = .ok source := by
  induction plans generalizing sources with
  | nil => cases hp
  | cons q plans ih =>
      rw [startSources] at h
      split at h
      next own others hown hothers =>
        rcases List.mem_cons.mp hp with rfl | hp
        · exact ⟨own, hown⟩
        · exact ih hothers hp
      · cases h
      · cases h

/-- What a setup that succeeds has done. -/
structure Built (r : Registry) (c : Configurator) (journal : Journal) (storage : Storage)
    (plan : Plan) (final : Opened) (cache : Cache) : Prop where
  planned : Plan.ofRegistry r c = .ok plan
  made : runCalls (perform journal) plan.calls { storage } = (.ok (), final)
  started : startSources plan.dryRun final.tables plan.sources = .ok cache.sources
  storage : cache.storage = final.storage
  instances : cache.instances = []

/-- The cache of a plan whose calls are made. -/
def ofPlan (plan : Plan) (final : Opened) : Cache where
  sources := (startSources plan.dryRun final.tables plan.sources).toOption.getD .empty
  storage := final.storage
  dryRun := plan.dryRun

/-- How a stored source comes to its table: its own driver accepts it, a store is opened
with some options by the driver of the first source under its dao key, and that store gives
the table. -/
structure Installed (journal : Journal) (calls : List Call) (storage : Storage)
    (m first : SourceMeta) (daoKey : String) (options : Json) (dao : DaoRef) (table : TableRef) :
    Prop where
  validated : ∃ driver o o', driver.name = m.driver ∧
    Made (perform journal) calls { storage } (.validate m.driver m) o o' ∧
    o.storage.validate driver m = (.ok (), o'.storage)
  opened : ∃ driver o o', driver.name = first.driver ∧
    Made (perform journal) calls { storage } (.openDao daoKey first.driver options) o o' ∧
    o.storage.openDao driver options = (.ok dao, o'.storage)
  given : ∃ o o', Made (perform journal) calls { storage } (.openTable daoKey m) o o' ∧
    o.daos.get? daoKey = some dao ∧ o.storage.openTable dao m = (.ok table, o'.storage)

section Setups

variable {r : Registry} {c : Configurator} {journal : Journal} {storage : Storage} {plan : Plan}
  {final : Opened} {cache : Cache} {m first : SourceMeta} {daoKey : String} {options : Json}
  {dao : DaoRef} {table : TableRef}

theorem exists_built (h : setup r c journal storage = .ok cache) :
    ∃ plan final, Built r c journal storage plan final cache := by
  rw [setup] at h
  split at h
  · cases h
  next plan hplan =>
    split at h
    · cases h
    next final hmade =>
      split at h
      · cases h
      next sources hsources =>
        obtain rfl := Except.ok.inj h
        exact ⟨plan, final, hplan, hmade, hsources, rfl, rfl⟩

/-- A setup succeeds if all its calls do and every source can be started. -/
theorem setup_of_made (hplan : Plan.ofRegistry r c = .ok plan)
    (hmade : runCalls (perform journal) plan.calls { storage } = (.ok (), final))
    (hstarts : (startSources plan.dryRun final.tables plan.sources).toOption.isSome = true) :
    setup r c journal storage = .ok (ofPlan plan final) := by
  simp only [setup, hplan, hmade, ofPlan]
  cases hresult : startSources plan.dryRun final.tables plan.sources with
  | error b =>
      rw [hresult] at hstarts
      cases hstarts
  | ok sources => rfl

theorem Installed.driver
    (h : Installed journal plan.calls storage m first daoKey options dao table) :
    table.driver.name = first.driver := by
  obtain ⟨driver, o, o', hname, -, hopen⟩ := h.opened
  obtain ⟨o₁, o₁', -, -, htable⟩ := h.given
  rw [Storage.driver_of_openTable htable, Storage.driver_of_openDao hopen, hname]

theorem Built.nodup_namespaces (h : Built r c journal storage plan final cache)
    (hr : r.Arises) : (plan.sources.map (·.source.ns)).Nodup := by
  rw [(Plan.lists_of_registry h.planned).map_ns, hr.map_ns]
  exact r.sources.nodup_keys

/-- Every registered source is started. -/
theorem Built.exists_source (h : Built r c journal storage plan final cache) (hr : r.Arises)
    (hm : m ∈ r.sources.values) : ∃ options source, cache.sources.get? m.ns = some source ∧
      startSource plan.dryRun final.tables ⟨m, options⟩ = .ok source := by
  have hplanned : (⟨m, if m.isPersisted then c.tableOptions m.driver m.ns else none⟩ :
      SourcePlan) ∈ plan.sources := by
    rw [(Plan.lists_of_registry h.planned).sources]
    exact List.mem_map_of_mem hm
  obtain ⟨source, hstart⟩ := exists_startSource h.started hplanned
  exact ⟨_, source, (get?_startSources (h.nodup_namespaces hr) h.started).mpr
    ⟨_, hplanned, rfl, hstart⟩, hstart⟩

/-- Every stored source is installed with a table, and both the store and the table are
there in the end. -/
theorem Built.installed (h : Built r c journal storage plan final cache) (hr : r.Arises)
    (hm : m ∈ r.sources.values) (hstored : m.isPersisted = true) :
    ∃ options daoOptions first dao source,
      c.tableOptions m.driver m.ns = some options ∧
      c.daoOptions options.daoKey = some daoOptions ∧
      c.firstUnder options.daoKey r.sources.values = some first ∧
      final.daos.get? options.daoKey = some dao ∧
      cache.sources.get? m.ns = some source ∧ source.info = m ∧
      Installed journal plan.calls storage m first options.daoKey daoOptions dao
        source.table := by
  have hlists := Plan.lists_of_registry h.planned
  have hdistinct := h.nodup_namespaces hr
  have hdaoKeys : (plan.calls.filterMap Call.daoKey?).Nodup := by
    rw [Plan.daoKeys_calls]
    exact plan.daos.nodup_keys
  have hnamespaces : (plan.calls.filterMap Call.ns?).Nodup := by
    rw [Plan.namespaces_calls]
    exact hdistinct.sublist plan.sublist_stored
  obtain ⟨options, daoOptions, first, hoptions, hdaoOptions, hfirst, hdao⟩ :=
    hlists.exists_dao hm hstored
  have hplanned : (m, options) ∈ plan.stored := hlists.mem_stored_iff.mpr ⟨hm, hstored, hoptions⟩
  -- Its driver accepts it.
  obtain ⟨v, v', hvalidate⟩ := Made.of_mem h.made (Plan.mem_calls_validate hplanned)
  obtain ⟨vdriver, hvname, hvalid⟩ := perform_validate_eq_ok hvalidate.performed
  -- The store is opened once, and nothing takes its place.
  obtain ⟨d, d', hopenDao⟩ := Made.of_mem h.made (Plan.mem_calls_openDao hdao)
  obtain ⟨ddriver, dao, hdname, hopened, hdaos, -⟩ := perform_openDao_eq_ok hopenDao.performed
  have hdaoOpen : d'.daos.get? options.daoKey = some dao := by
    rw [hdaos, SortedMap.get?_insert, if_pos rfl]
  have hdaoFinal := get?_daos_final hdaoKeys h.made hopenDao rfl hdaoOpen
  -- So it is the one that the table is opened from.
  obtain ⟨t, t', hopenTable⟩ := Made.of_mem h.made (Plan.mem_calls_openTable hplanned)
  obtain ⟨dao', table, hdao', hgiven, htdaos, httables⟩ :=
    perform_openTable_eq_ok hopenTable.performed
  have hsame : dao' = dao := by
    have hfinal' := get?_daos_final hdaoKeys h.made hopenTable rfl (htdaos ▸ hdao')
    exact Option.some.inj (hfinal'.symm.trans hdaoFinal)
  subst hsame
  have htableOpen : t'.tables.get? m.ns = some table := by
    rw [httables, SortedMap.get?_insert, if_pos rfl]
  have htableFinal := get?_tables_final hnamespaces h.made hopenTable rfl htableOpen
  -- The source is started with it.
  obtain ⟨_, source, hsource, hstart⟩ := h.exists_source hr hm
  obtain ⟨hinfo, -, htable, -⟩ := startSource_eq_ok hstart
  rw [htableFinal, Option.getD_some] at htable
  subst htable
  exact ⟨options, daoOptions, first, dao', source, hoptions, hdaoOptions, hfirst, hdaoFinal,
    hsource, hinfo, ⟨vdriver, v, v', hvname, hvalidate, hvalid⟩,
    ⟨ddriver, d, d', hdname, hopenDao, hopened⟩, ⟨t, t', hopenTable, hdao', hgiven⟩⟩

/-- A source is served by a table of its own driver. -/
def ServesByOwn (cache : Cache) (m : SourceMeta) : Prop :=
  ∃ source, cache.sources.get? m.ns = some source ∧ source.table.driver.name = m.driver

theorem Built.servesByOwn_iff (h : Built r c journal storage plan final cache) (hr : r.Arises)
    (hm : m ∈ r.sources.values) (hstored : m.isPersisted = true) {options : TableOptions}
    (hoptions : c.tableOptions m.driver m.ns = some options) :
    cache.ServesByOwn m ↔
      ∃ first, c.firstUnder options.daoKey r.sources.values = some first ∧
        first.driver = m.driver := by
  obtain ⟨options', _, first, dao, source, hoptions', -, hfirst, -, hsource, -, hinstalled⟩ :=
    h.installed hr hm hstored
  obtain rfl := Option.some.inj (hoptions.symm.trans hoptions')
  constructor
  · rintro ⟨source', hsource', hown⟩
    obtain rfl := Option.some.inj (hsource.symm.trans hsource')
    exact ⟨first, hfirst, hinstalled.driver.symm.trans hown⟩
  · rintro ⟨first', hfirst', hown⟩
    obtain rfl := Option.some.inj (hfirst.symm.trans hfirst')
    exact ⟨source, hsource, hinstalled.driver.trans hown⟩

/-- Every stored source is served by the store of its dao key, which the driver of the first
source under that key opens.  All of them are served by their own drivers if and only if no
dao key is named by sources of different drivers. -/
theorem setup_serves (hr : r.Arises) (h : setup r c journal storage = .ok cache) :
    ∃ plan, Plan.ofRegistry r c = .ok plan ∧
      (∀ m ∈ r.sources.values, m.isPersisted = true →
        ∃ options daoOptions first dao source,
          c.tableOptions m.driver m.ns = some options ∧
          c.daoOptions options.daoKey = some daoOptions ∧
          c.firstUnder options.daoKey r.sources.values = some first ∧
          cache.sources.get? m.ns = some source ∧ source.info = m ∧
          Installed journal plan.calls storage m first options.daoKey daoOptions dao
            source.table ∧
          source.table.driver.name = first.driver) ∧
      ((∀ m ∈ r.sources.values, m.isPersisted = true → cache.ServesByOwn m) ↔
        c.OneDriverPerDao r.sources.values) := by
  obtain ⟨plan, final, hbuilt⟩ := exists_built h
  refine ⟨plan, hbuilt.planned, ?_, ?_, ?_⟩
  · intro m hm hstored
    obtain ⟨options, daoOptions, first, dao, source, hoptions, hdaoOptions, hfirst, -, hsource,
      hinfo, hinstalled⟩ := hbuilt.installed hr hm hstored
    exact ⟨options, daoOptions, first, dao, source, hoptions, hdaoOptions, hfirst, hsource, hinfo,
      hinstalled, hinstalled.driver⟩
  · intro hserves m hm m' hm' hstored hstored' options options' hoptions hoptions' hkey
    have hdriver := (hbuilt.servesByOwn_iff hr hm hstored hoptions).mp (hserves m hm hstored)
    have hdriver' := (hbuilt.servesByOwn_iff hr hm' hstored' hoptions').mp
      (hserves m' hm' hstored')
    rw [hkey] at hdriver
    obtain ⟨first, hfirst, heq⟩ := hdriver
    obtain ⟨first', hfirst', heq'⟩ := hdriver'
    obtain rfl := Option.some.inj (hfirst.symm.trans hfirst')
    exact heq.symm.trans heq'
  · intro hone m hm hstored
    obtain ⟨options, -, first, -, -, hoptions, -, hfirst, -⟩ := hbuilt.installed hr hm hstored
    obtain ⟨hmem, hstored', options', hoptions', hkey⟩ := Configurator.firstUnder_eq_some hfirst
    refine (hbuilt.servesByOwn_iff hr hm hstored hoptions).mpr ⟨first, hfirst, ?_⟩
    exact hone first hmem m hm hstored' hstored options' options hoptions' hoptions hkey

end Setups

end Cache

/-! ## Two drivers under one dao key -/

namespace Sample

/-- Players in memory. -/
def mixedPlayer : SourceMeta := .ofDesc player { driver := "memory", table := "players" }

/-- Heroes in a database file and players in memory. -/
def mixedRegistry : Registry where
  sources := .ofList
    [("hero", .ofDesc hero { driver := "redb", table := "heroes" }), ("player", mixedPlayer)]
  drivers := [noStorage, "memory", "redb"]

theorem arises_mixedRegistry : mixedRegistry.Arises := by
  have hdrivers := (Registry.Arises.empty.driver "memory").driver "redb"
  have hhero := hdrivers.source hero { driver := "redb", table := "heroes" } rfl
  exact hhero.source player { driver := "memory", table := "players" } rfl

/-- The options of the one store. -/
def dbOptions : Json := .obj [("path", .str "db")]

/-- All tables are in the store of one dao key. -/
def oneDao : Configurator where
  dryRun := false
  driverOptions _ := .obj []
  daoOptions daoKey := if daoKey = "m" then some dbOptions else none
  tableOptions _ _ := some { daoKey := "m" }

/-- A journal that holds nothing. -/
def noJournal : Cache.Journal := fun _ => .ok []

/-- A new database file, open. -/
def dbFile : FileStore where
  files := SortedMap.empty.insert "/work/db" .empty
  opened := SortedMap.empty.insert "/work/db" .empty

theorem openDao_dbFile : FileStore.openDao {} dbOptions = (.ok "/work/db", dbFile) := by
  cbv

/-- Nothing is open yet.  The driver in memory may have been initialised. -/
def unopened (inits : Nat) : Cache.Opened where
  storage := { memory := { inits } }

/-- The database file is open. -/
def dbOpened (inits : Nat) : Cache.Opened where
  storage := { (unopened inits).storage with files := dbFile }
  daos := SortedMap.empty.insert "m" (.file "/work/db")

theorem perform_openDao_db (inits : Nat) :
    Cache.perform noJournal (.openDao "m" "redb" dbOptions) (unopened inits) =
      (.ok (), dbOpened inits) := by
  simp only [Cache.perform, Storage.openDao, unopened, dbOpened, openDao_dbFile]
  rfl

/-- The plan for heroes and players under one dao key. -/
def mixedPlan : Plan := (Plan.ofRegistry mixedRegistry oneDao).toOption.getD {}

/-- All calls are made. -/
def mixedOpened : Cache.Opened :=
  (runCalls (Cache.perform noJournal) (mixedPlan.calls.drop 7) (dbOpened 1)).2

/-- Heroes and players under one dao key. -/
def mixedCache : Cache := .ofPlan mixedPlan mixedOpened

theorem runCalls_mixedPlan : runCalls (Cache.perform noJournal) mixedPlan.calls { storage := {} } =
    (.ok (), mixedOpened) := by
  have hcalls : mixedPlan.calls =
      mixedPlan.calls.take 6 ++ .openDao "m" "redb" dbOptions :: mixedPlan.calls.drop 7 := rfl
  have hinited : runCalls (Cache.perform noJournal) (mixedPlan.calls.take 6) { storage := {} } =
      (.ok (), unopened 1) := by
    cbv
  have hopened : runCalls (Cache.perform noJournal) (mixedPlan.calls.drop 7) (dbOpened 1) =
      (.ok (), mixedOpened) := rfl
  rw [hcalls]
  exact runCalls_append_eq_ok.mpr
    ⟨_, hinited, runCalls_cons_eq_ok.mpr ⟨_, perform_openDao_db 1, hopened⟩⟩

theorem setup_mixed : Cache.setup mixedRegistry oneDao noJournal {} = .ok mixedCache := by
  have hstarts : ∀ tables,
      (Cache.startSources false tables mixedPlan.sources).toOption.isSome = true := by
    intro tables
    cbv
  exact Cache.setup_of_made rfl runCalls_mixedPlan (hstarts mixedOpened.tables)

/-- The store under the dao key is that of the heroes, a database file. -/
theorem setup_serves_mixed :
    mixedRegistry.Arises ∧ Cache.setup mixedRegistry oneDao noJournal {} = .ok mixedCache ∧
      ∃ source, mixedCache.sources.get? "player" = some source ∧
        source.table.driver.name = "redb" ∧
        ¬ oneDao.OneDriverPerDao mixedRegistry.sources.values := by
  refine ⟨arises_mixedRegistry, setup_mixed, ?_⟩
  obtain ⟨plan, -, hserves, hown⟩ := Cache.setup_serves arises_mixedRegistry setup_mixed
  obtain ⟨options, daoOptions, first, dao, source, hoptions, -, hfirst, hsource, -, -, hdriver⟩ :=
    hserves mixedPlayer (by decide) rfl
  obtain rfl := Option.some.inj hoptions
  obtain rfl := Option.some.inj hfirst
  refine ⟨source, hsource, hdriver, ?_⟩
  intro hone
  obtain ⟨source', hsource', hserved⟩ := hown.mpr hone mixedPlayer (by decide) rfl
  obtain rfl := Option.some.inj (hsource.symm.trans hsource')
  rw [hdriver] at hserved
  exact absurd hserved (by decide)

/-- Players are registered for memory and served from the database file of the heroes. -/
theorem exists_foreign_store :
    mixedRegistry.Arises ∧ Cache.setup mixedRegistry oneDao noJournal {} = .ok mixedCache ∧
      mixedPlayer ∈ mixedRegistry.sources.values ∧ mixedPlayer.isPersisted = true ∧
      ¬ mixedCache.ServesByOwn mixedPlayer := by
  refine ⟨arises_mixedRegistry, setup_mixed, by decide, rfl, ?_⟩
  obtain ⟨plan, final, hbuilt⟩ := Cache.exists_built setup_mixed
  rw [hbuilt.servesByOwn_iff arises_mixedRegistry (by decide) rfl rfl]
  rintro ⟨first, hfirst, hdriver⟩
  obtain rfl := Option.some.inj hfirst
  exact absurd hdriver (by decide)

end Sample

end WriteBehind
