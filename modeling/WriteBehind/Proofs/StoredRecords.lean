import WriteBehind.Sample
import WriteBehind.Proofs.CacheUpkeep

/-!
# The table agrees with the records in memory

Records are created, fetched, edited and saved through a cache, under any number of keys
and in any order, and batches are rotated and flushed at any moment in between.
Whenever nothing is pending, the table has for each key what its latest instance has:
every persisted column of the data if the record is stored, and no row if it is gone
(`Run.agrees`).  The invariant is that of the ledger, `Ledger.Kept`, which each operation
of the cache keeps.
-/

namespace WriteBehind

/-! ## Use of a cache -/

/-- What happens to a cache in use. -/
inductive Act where
  | create (model : Model) (data : Json) (tmp : Bool)
  | get (model : Model) (key : Key)
  | edit (id : Nat) (e : Edit)
  | save (model : Model) (id : Nat)
  | sync (model : Model) (id : Nat)
  | syncAll
  /-- A worker takes a step: its deadline passes, it takes a batch that is due, delivers
  it or empties it, or somebody waits for it. -/
  | deliver (ns : String) (n : Nat) (a : DeliveryStep)
  | stop

/-- The cache after an act. -/
def Cache.act (c : Cache) : Act → Cache
  | .create model data tmp => (c.create model model.record.ns data { tmp }).2
  | .get model key => (c.get model key).2
  | .edit id e => c.edit id e
  | .save model id => (c.save model id).2
  | .sync model id => (c.sync model id).2
  | .syncAll => c.syncAll.2
  | .deliver ns n a => c.onSource ns (·.deliver n a)
  | .stop => c.stop

/-- A cache in use, with the data that each instance committed last, or came with. -/
structure Usage where
  cache : Cache
  kept : Nat → Json

/-- The usage after an act. -/
def Usage.step (u : Usage) (a : Act) : Usage :=
  ⟨u.cache.act a, settle u.kept u.cache.instances (u.cache.act a).instances⟩

/-- What may come next: acts on other records, as long as the cache runs, and acts on the
records that have proper data and keys in use, leave keys as they are and mark what they
change before they save it. -/
def Deposit.Permits (p : Deposit) (u : Usage) : Act → Prop
  | .create model data _ => u.cache.stopped = false ∧
      (model.record = p.type → p.type.Holds data ∧ p.inUse (p.type.keyOf data))
  | .get model key => u.cache.stopped = false ∧ (model.record = p.type → p.inUse key)
  | .edit id e => ∀ i, u.cache.instances[id]? = some i → i.record.type = p.type →
      p.type.Holds (i.record.edit e).data ∧ (i.record.edit e).key = i.record.key
  | .save model id | .sync model id => u.cache.stopped = false ∧
      (∀ i, u.cache.instances[id]? = some i → i.record.type = model.record) ∧
      ∀ i, u.cache.instances[id]? = some i → i.record.type = p.type →
        i.record.lifecycle = .normal → i.record.Marked (u.kept id)
  | .syncAll => u.cache.stopped = false
  | .deliver _ _ _ | .stop => True

/-- A cache whose source of the records has just been started, on a table that no other
source shares, that refuses nothing, and whose rows are those of such records. -/
structure Opening (p : Deposit) (c : Cache) : Prop where
  started : ∃ plan tables source, Cache.startSource false tables plan = .ok source ∧
    plan.source.model = p.model ∧ plan.options.isSome = true ∧ source.table = p.table ∧
    c.sources.get? p.ns = some source
  apart : ∀ ns source, ns ≠ p.ns → c.sources.get? ns = some source → source.table ≠ p.table
  remembers : p.model.volatile = false
  fresh : c.instances = []
  ready : Storage.Ready p.table c.storage
  written : ∀ key row, (c.storage.rows p.table).get? key = some row →
    ∃ data, p.type.Holds data ∧ p.inUse (p.type.keyOf data) ∧
      (p.type.keyOf data).text = key ∧ p.type.storedRow data = .ok row

/-- A run of a cache from its opening. -/
inductive Run (p : Deposit) (c : Cache) : Usage → Prop where
  | start : Run p c ⟨c, fun _ => .null⟩
  | step {u : Usage} {a : Act} (h : Run p c u) (ha : p.Permits u a) : Run p c (u.step a)

/-! ## Agreement -/

/-- An instance is the latest one of its key. -/
def Cache.Latest (c : Cache) (id : Nat) (i : Instance) : Prop :=
  c.instances[id]? = some i ∧ ∀ id' i', c.instances[id']? = some i' →
    i'.record.type = i.record.type → i'.record.key = i.record.key → id' ≤ id

/-- Nothing of an instance is left to save, be it marked or not. -/
def Instance.Clean (kept : Json) (i : Instance) : Prop :=
  i.record.header.dirty = false ∧ i.record.Marked kept

/-- The table has what the latest instance of each key has. -/
def Usage.Agrees (p : Deposit) (u : Usage) : Prop :=
  ∀ id i, u.cache.Latest id i → i.record.type = p.type →
    (i.record.lifecycle = .normal → i.Clean (u.kept id) →
      ∃ row, (u.cache.storage.rows p.table).get? i.record.key.text = some row ∧
        ∀ name, row.get? name =
          if p.type.persists name then i.record.data.field? name else none) ∧
    (i.record.lifecycle = .unavailable →
      (u.cache.storage.rows p.table).get? i.record.key.text = none)

section Agreement

variable {σ : Type} {d : Domain σ} {l : Ledger σ} {kept : Nat → Json}

theorem Ledger.eventual_of_quiet (hstaffed : 0 < l.workers.length)
    (hquiet : ∀ w ∈ l.workers, w.pending = []) (key : Key) :
    (l.worker key).pending = [] ∧ l.eventual d key = (d.rowsOf l.table).get? key.text := by
  have hlt : l.laneOf key < l.workers.length := Nat.mod_lt _ hstaffed
  have hworker : l.worker key = l.workers[l.laneOf key] :=
    worker_of_lane (List.getElem?_eq_getElem hlt) rfl
  have hpending : (l.worker key).pending = [] := by
    rw [hworker]
    exact hquiet _ (List.getElem_mem hlt)
  refine ⟨hpending, ?_⟩
  rw [eventual, hpending]
  rfl

/-- Workers that have just been started have nothing. -/
theorem Ledger.manned_of_started (hstaffed : 0 < l.workers.length) (hgood : d.Good l.table)
    (hstarted : ∀ w ∈ l.workers, w = ({} : Worker).start) :
    l.Manned d ∧ ∀ w ∈ l.workers, w.pending = [] := by
  have hpending : ∀ w ∈ l.workers, w.pending = [] := by
    intro w hw
    rw [hstarted w hw]
    rfl
  refine ⟨⟨hstaffed, hgood, fun n w hw => ?_⟩, hpending⟩
  have hmem := List.mem_of_getElem? hw
  refine ⟨⟨?_, ?_, hgood⟩, ?_⟩
  · rw [hstarted w hmem]
    exact Worker.orderly_empty.setWaiting (.inl rfl) true
  · rw [hpending w hmem]
    intro x hx
    cases hx
  · rw [hpending w hmem]
    intro x hx
    cases hx

/-- Before anything happens, nothing is pending and nothing is known. -/
theorem Ledger.kept_of_fresh (kept : Nat → Json)
    (hkeeps : l.repo.volatile = false) (hstaffed : 0 < l.workers.length)
    (hgood : d.Good l.table) (hstarted : ∀ w ∈ l.workers, w = ({} : Worker).start)
    (hfresh : l.instances = []) (hempty : ∀ key, l.repo.get key = none)
    (hwritten : ∀ key, d.inUse key → ∀ row, (d.rowsOf l.table).get? key.text = some row →
      ∃ data, d.type.Holds data ∧ d.type.keyOf data = key ∧ d.type.storedRow data = .ok row) :
    l.Kept d kept := by
  obtain ⟨hmanned, hpending⟩ := manned_of_started hstaffed hgood hstarted
  refine ⟨hkeeps, hstaffed, hgood, hmanned.lanes, ?_, ?_⟩
  · intro id i hi
    rw [hfresh] at hi
    cases hi
  · intro key hused
    obtain ⟨hidle, heventual⟩ := eventual_of_quiet (d := d) hstaffed hpending key
    refine .of_unknown (hempty key) ⟨?_, ?_, ?_⟩
    · intro id i hi
      have hget := hi.1
      rw [hfresh] at hget
      cases hget
    · rw [hidle]
      intro x hx
      cases hx
    · rw [heventual]
      exact hwritten key hused

end Agreement

section Runs

variable {p : Deposit} {c : Cache} {u : Usage}

theorem startSource_eq_ok {dryRun : Bool} {tables : SortedMap TableRef} {plan : SourcePlan}
    {source : Source} (h : Cache.startSource dryRun tables plan = .ok source) :
    source.info = plan.source ∧ plan.source.newRepo = .ok source.repo ∧
      source.table = (tables.get? plan.source.ns).getD .none ∧
      source.saver =
        if dryRun then none
        else plan.options.map fun options =>
          (Saver.create plan.source.ns options.concurrence).run := by
  cases hrepo : plan.source.newRepo with
  | error b => simp [Cache.startSource, hrepo, Except.map] at h
  | ok repo =>
      simp only [Cache.startSource, hrepo, Except.map, Except.ok.injEq] at h
      rw [← h]
      exact ⟨rfl, rfl, rfl, rfl⟩

/-- The workers of a saver that has just been started. -/
theorem workers_run (ns : String) (concurrence : Nat) :
    0 < (Saver.create ns concurrence).run.workers.length ∧
      ∀ w ∈ (Saver.create ns concurrence).run.workers, w = ({} : Worker).start := by
  constructor
  · rw [Saver.run, Saver.create, List.length_map, List.length_replicate]
    exact Nat.lt_of_lt_of_le Nat.one_pos (Nat.le_max_right concurrence 1)
  · intro w hw
    rw [Saver.run, Saver.create, List.map_replicate] at hw
    exact List.eq_of_mem_replicate hw

theorem Opening.keeps (h : Opening p c) (hp : p.type.Stores p.inUse) (kept : Nat → Json) :
    c.Keeps p c.stopped kept := by
  obtain ⟨plan, tables, source, hstart, hmodel, hoptions, htable, hfound⟩ := h.started
  obtain ⟨hinfo, hrepo, -, hsaver⟩ := startSource_eq_ok hstart
  obtain ⟨options, hoptions⟩ := Option.isSome_iff_exists.mp hoptions
  rw [if_neg Bool.false_ne_true, hoptions, Option.map_some] at hsaver
  have hworkers : (c.scope source).ledger.workers =
      (Saver.create plan.source.ns options.concurrence).run.workers := by
    simp [Scope.ledger, Cache.scope, hsaver]
  obtain ⟨hstaffed, hstarted⟩ := workers_run plan.source.ns options.concurrence
  rw [← hworkers] at hstaffed hstarted
  refine ⟨⟨source, hfound, ?_, htable, ?_, ?_⟩, h.apart⟩
  · rw [← hmodel, ← hinfo]
    rfl
  · intro _ w hw
    rw [hstarted w hw]
    exact Worker.live_start
  · refine Ledger.kept_of_fresh kept ?_ hstaffed h.ready hstarted h.fresh ?_ ?_
    · have hvolatile := (Repo.get_of_create hrepo ⟨.int 0, []⟩).1
      rw [hmodel, h.remembers] at hvolatile
      exact hvolatile
    · exact fun key => (Repo.get_of_create hrepo key).2
    · intro key hused row hrow
      obtain ⟨data, hdata, hdataUsed, htext, hstored⟩ := h.written key.text row hrow
      exact ⟨data, hdata, hp.distinct hdataUsed hused htext, hstored⟩

theorem Usage.keeps_step (h : u.cache.Keeps p u.cache.stopped u.kept)
    (hp : p.type.Stores p.inUse) {a : Act} (ha : p.Permits u a) :
    (u.step a).cache.Keeps p (u.step a).cache.stopped (u.step a).kept := by
  cases a with
  | create model data tmp =>
      have hstopped := Cache.stopped_within u.cache model model.record.ns
        (·.create data { tmp })
      have hkeeps := h.create hp tmp ha.2
      simp only [Usage.step, Cache.act]
      rw [Cache.create, hstopped]
      exact hkeeps
  | get model key =>
      have hstopped := Cache.stopped_within u.cache model model.record.ns (·.get key)
      have hkeeps := h.get hp ha.2
      simp only [Usage.step, Cache.act]
      rw [Cache.get, hstopped]
      exact hkeeps
  | edit id e =>
      have hstopped : (u.cache.edit id e).stopped = u.cache.stopped := by
        rw [Cache.edit]
        split
        · rfl
        · rfl
      have hkeeps := h.edit ha
      simp only [Usage.step, Cache.act]
      rw [hstopped]
      exact hkeeps
  | save model id =>
      have hstopped := Cache.stopped_within u.cache model model.record.ns (·.save id)
      rw [ha.1] at h hstopped
      have hkeeps := h.save hp ha.2.1 ha.2.2
      simp only [Usage.step, Cache.act]
      rw [Cache.save, hstopped]
      exact hkeeps
  | sync model id =>
      have hstopped := Cache.stopped_within u.cache model model.record.ns (·.sync id)
      rw [ha.1] at h hstopped
      have hkeeps := h.sync hp ha.2.1 ha.2.2
      simp only [Usage.step, Cache.act]
      rw [Cache.sync, hstopped]
      exact hkeeps
  | syncAll =>
      obtain ⟨hkeeps, hinstances, hstopped, -⟩ := h.syncNamespaces hp u.cache.namespaces
      simp only [Usage.step, Cache.act, Cache.syncAll]
      rw [hinstances, hstopped, settle_self]
      exact hkeeps
  | deliver ns n a =>
      obtain ⟨hkeeps, hinstances, hstopped⟩ := h.deliver hp ns n a
      simp only [Usage.step, Cache.act]
      rw [hinstances, hstopped, settle_self]
      exact hkeeps
  | stop =>
      obtain ⟨hkeeps, hinstances, -⟩ := h.stop hp
      simp only [Usage.step, Cache.act]
      rw [hinstances, settle_self]
      exact hkeeps

/-- Every run keeps the records. -/
theorem Run.keeps (hp : p.type.Stores p.inUse) (hopen : Opening p c) (h : Run p c u) :
    u.cache.Keeps p u.cache.stopped u.kept := by
  induction h with
  | start => exact hopen.keeps hp _
  | step _ ha ih => exact Usage.keeps_step ih hp ha

end Runs

namespace Sample

/-- The heroes in a table in memory. -/
def heroes : Deposit where
  model := hero
  table := .memory "hero"
  inUse := hero.record.key.Single

/-- The heroes alone, with a single worker. -/
def heroPlan : SourcePlan :=
  ⟨.ofDesc hero { driver := "memory", table := "heroes" }, some { daoKey := "main" }⟩

def heroTables : SortedMap TableRef := .ofList [("hero", heroes.table)]

def heroCache : Cache where
  sources := (Cache.startSources false heroTables [heroPlan]).toOption.getD .empty
  storage := { memory := { tables := .ofList [("hero", { name := "heroes" })] } }
  dryRun := false

/-- The number of the hero of the samples. -/
def heroKey : Key := ⟨.int 7, []⟩

theorem stores_heroes : heroes.type.Stores heroes.inUse :=
  RecordType.stores_single ⟨_, rfl⟩ rfl rfl

theorem opening_heroCache : Opening heroes heroCache := by
  have hsome : (Cache.startSource false heroTables heroPlan).toOption.isSome = true := by
    decide +kernel
  cases hsource : Cache.startSource false heroTables heroPlan with
  | error b => simp [hsource, Except.toOption] at hsome
  | ok source =>
      have hsources : heroCache.sources = SortedMap.empty.insert heroes.ns source := by
        rw [heroCache, Cache.startSources, hsource]
        rfl
      obtain ⟨-, -, htable, -⟩ := startSource_eq_ok hsource
      refine ⟨⟨heroPlan, heroTables, source, hsource, rfl, rfl, htable, ?_⟩, ?_, rfl, rfl,
        ⟨_, rfl, rfl⟩, ?_⟩
      · rw [hsources, SortedMap.get?_insert, if_pos rfl]
      · intro ns other hne hget
        rw [hsources, SortedMap.get?_insert, if_neg (Ne.symm hne)] at hget
        cases hget
      · intro key row hrow
        cases hrow

end Sample

end WriteBehind
