import Mathlib.Data.List.Nodup
import WriteBehind.Cache

/-!
# The calls of a setup

A plan lists the sources of a registry with their options, and the stores by dao key, each
with the driver of the first source that names the key (`Plan.Lists`).  What a call does when
it succeeds is said once for each kind of call (`Cache.perform_openDao_eq_ok`,
`Cache.perform_openTable_eq_ok`).  `Made` says that a call was made, and in which state.  A
plan opens no store and no table twice, so what one of its calls has opened is still there in
the end (`Cache.get?_daos_final`, `Cache.get?_tables_final`).
-/

namespace WriteBehind

/-! ## Registries -/

/-- The registries that registration makes. -/
inductive Registry.Arises : Registry → Prop
  | empty : Arises {}
  | driver {r : Registry} (h : Arises r) (driver : String) : Arises (r.registerDriver driver)
  | source {r r' : Registry} (h : Arises r) (model : Model) (desc : SourceDesc)
      (hr : r.register model desc = .ok r') : Arises r'

theorem Registry.Arises.keyed {r : Registry} (h : r.Arises) {ns : String} {m : SourceMeta}
    (hm : r.sources.get? ns = some m) : m.ns = ns := by
  induction h generalizing m with
  | empty => cases hm
  | driver h name ih =>
      rw [registerDriver] at hm
      split at hm
      · exact ih hm
      · exact ih hm
  | source h model desc hr ih =>
      rw [register] at hr
      split at hr
      · cases hr
      · split at hr
        · cases hr
        · obtain rfl := Except.ok.inj hr
          rw [SortedMap.get?_insert] at hm
          split at hm
          next hns =>
            obtain rfl := Option.some.inj hm
            exact hns
          · exact ih hm

/-! ## Plans -/

/-- The first of some sources that is stored under a dao key. -/
def Configurator.firstUnder (c : Configurator) (daoKey : String) (ms : List SourceMeta) :
    Option SourceMeta :=
  ms.find? fun m => m.isPersisted && (c.tableOptions m.driver m.ns).any (·.daoKey == daoKey)

theorem Configurator.firstUnder_concat (c : Configurator) (daoKey : String)
    (ms : List SourceMeta) (m : SourceMeta) :
    c.firstUnder daoKey (ms ++ [m]) = (c.firstUnder daoKey ms).or
      (if m.isPersisted && (c.tableOptions m.driver m.ns).any (·.daoKey == daoKey) then some m
        else none) := by
  rw [firstUnder, List.find?_append, List.find?_singleton]
  rfl

namespace Plan

theorem get?_insertNew {α : Type} (p : SortedMap α) (key k : String) (a : α) :
    (insertNew p key a).get? k = (p.get? k).or (if key = k then some a else none) := by
  rw [insertNew, SortedMap.contains]
  by_cases hk : key = k
  · subst hk
    cases hget : p.get? key with
    | some b => simp [hget]
    | none => simp
  · cases hget : p.get? key with
    | some b => simp [hk]
    | none => simp [SortedMap.get?_insert, hk]

/-- A plan for some sources: each of them with its options, and each store with the driver of the
source that names it first. -/
structure Lists (c : Configurator) (ms : List SourceMeta) (p : Plan) : Prop where
  sources : p.sources = ms.map fun m =>
    ⟨m, if m.isPersisted then c.tableOptions m.driver m.ns else none⟩
  resolved : ∀ m ∈ ms, m.isPersisted = true → ∃ options daoOptions,
    c.tableOptions m.driver m.ns = some options ∧ c.daoOptions options.daoKey = some daoOptions
  daos : ∀ daoKey, p.daos.get? daoKey = (c.firstUnder daoKey ms).bind fun first =>
    (c.daoOptions daoKey).map (first.driver, ·)

variable {drivers : List String} {c : Configurator} {ms : List SourceMeta} {p p' : Plan}

/-- One more source. -/
theorem Lists.add (h : p.Lists c ms) {m : SourceMeta} (hadd : p.add drivers c m = .ok p') :
    p'.Lists c (ms ++ [m]) := by
  rw [Plan.add] at hadd
  split at hadd
  · cases hadd
  split at hadd
  next hnone =>
    have hpersisted : m.isPersisted = false := by simp [SourceMeta.isPersisted, hnone]
    obtain rfl := Except.ok.inj hadd
    constructor
    · simp [h.sources, hpersisted]
    · intro m' hm' hstored
      rcases List.mem_append.mp hm' with hold | hnew
      · exact h.resolved m' hold hstored
      · rw [List.mem_singleton] at hnew
        subst hnew
        rw [hpersisted] at hstored
        cases hstored
    · intro daoKey
      rw [Configurator.firstUnder_concat, hpersisted, Bool.false_and]
      exact (h.daos daoKey).trans (by rw [if_neg Bool.false_ne_true, Option.or_none])
  next hstored =>
    have hpersisted : m.isPersisted = true := by simp [SourceMeta.isPersisted, hstored]
    split at hadd
    · cases hadd
    next options hoptions =>
    split at hadd
    · cases hadd
    split at hadd
    · cases hadd
    next daoOptions hdao =>
    obtain rfl := Except.ok.inj hadd
    constructor
    · simp [addStored, h.sources, hpersisted, hoptions]
    · intro m' hm' hstored
      rcases List.mem_append.mp hm' with hold | hnew
      · exact h.resolved m' hold hstored
      · rw [List.mem_singleton] at hnew
        subst hnew
        exact ⟨options, daoOptions, hoptions, hdao⟩
    · intro daoKey
      rw [addStored, get?_insertNew, h.daos, Configurator.firstUnder_concat, hpersisted, hoptions,
        Bool.true_and, Option.any_some]
      by_cases hkey : options.daoKey = daoKey
      · subst hkey
        rw [if_pos rfl, if_pos (beq_self_eq_true _), hdao]
        cases c.firstUnder options.daoKey ms with
        | none => rfl
        | some first => rfl
      · rw [if_neg hkey, if_neg (by simpa using hkey), Option.or_none, Option.or_none]

theorem Lists.addAll (h : p.Lists c ms) {more : List SourceMeta}
    (hadd : p.addAll drivers c more = .ok p') : p'.Lists c (ms ++ more) := by
  induction more generalizing ms p with
  | nil =>
      obtain rfl := Except.ok.inj hadd
      rwa [List.append_nil]
  | cons m more ih =>
      rw [Plan.addAll] at hadd
      split at hadd
      next next hnext =>
        have hrest := ih (h.add hnext) hadd
        rwa [List.append_assoc] at hrest
      · cases hadd

theorem lists_of_registry {r : Registry} (h : Plan.ofRegistry r c = .ok p) :
    p.Lists c r.sources.values := by
  have hstart : Lists c [] { dryRun := c.dryRun } :=
    ⟨rfl, fun m hm => absurd hm List.not_mem_nil, fun _ => rfl⟩
  exact hstart.addAll h

theorem Lists.mem_stored_iff (h : p.Lists c ms) {m : SourceMeta} {options : TableOptions} :
    (m, options) ∈ p.stored ↔
      m ∈ ms ∧ m.isPersisted = true ∧ c.tableOptions m.driver m.ns = some options := by
  simp only [stored, h.sources, List.filterMap_map, List.mem_filterMap, Function.comp_apply]
  constructor
  · rintro ⟨m', hm', hsome⟩
    obtain ⟨options', hoptions, hpair⟩ := Option.map_eq_some_iff.mp hsome
    obtain ⟨rfl, rfl⟩ := Prod.mk.inj hpair
    split at hoptions
    next hpersisted => exact ⟨hm', hpersisted, hoptions⟩
    · cases hoptions
  · rintro ⟨hm, hpersisted, hoptions⟩
    exact ⟨m, hm, by rw [if_pos hpersisted, hoptions]; rfl⟩

end Plan

/-! ## Calls that are made -/

section Calls

variable {γ σ ε : Type} {perform : γ → σ → Except ε Unit × σ} {call : γ} {calls more : List γ}
  {s t : σ}

theorem runCalls_cons_eq_ok :
    runCalls perform (call :: calls) s = (.ok (), t) ↔
      ∃ s', perform call s = (.ok (), s') ∧ runCalls perform calls s' = (.ok (), t) := by
  rw [runCalls]
  constructor
  · intro h
    split at h
    next s' hcall => exact ⟨s', hcall, h⟩
    · cases h
  · rintro ⟨s', hcall, hrest⟩
    rw [hcall]
    exact hrest

theorem runCalls_append_eq_ok :
    runCalls perform (calls ++ more) s = (.ok (), t) ↔
      ∃ s', runCalls perform calls s = (.ok (), s') ∧ runCalls perform more s' = (.ok (), t) := by
  induction calls generalizing s with
  | nil => simp [runCalls]
  | cons call calls ih =>
      simp only [List.cons_append, runCalls_cons_eq_ok, ih]
      constructor
      · rintro ⟨s', hcall, s'', hcalls, hmore⟩
        exact ⟨s'', ⟨s', hcall, hcalls⟩, hmore⟩
      · rintro ⟨s'', ⟨s', hcall, hcalls⟩, hmore⟩
        exact ⟨s', hcall, s'', hcalls, hmore⟩

/-- A call is made with success in the course of some calls. -/
def Made (perform : γ → σ → Except ε Unit × σ) (calls : List γ) (s : σ) (call : γ)
    (before after : σ) : Prop :=
  ∃ earlier later, calls = earlier ++ call :: later ∧
    runCalls perform earlier s = (.ok (), before) ∧ perform call before = (.ok (), after)

variable {before after : σ}

theorem Made.performed (h : Made perform calls s call before after) :
    perform call before = (.ok (), after) := by
  obtain ⟨earlier, later, -, -, hcall⟩ := h
  exact hcall

theorem Made.of_mem (hrun : runCalls perform calls s = (.ok (), t)) (hmem : call ∈ calls) :
    ∃ before after, Made perform calls s call before after := by
  obtain ⟨earlier, later, rfl⟩ := List.append_of_mem hmem
  obtain ⟨before, hearlier, hrest⟩ := runCalls_append_eq_ok.mp hrun
  obtain ⟨after, hcall, -⟩ := runCalls_cons_eq_ok.mp hrest
  exact ⟨before, after, earlier, later, rfl, hearlier, hcall⟩

/-- What every call keeps is kept by all of them. -/
theorem runCalls_keeps {P : σ → Prop} (hrun : runCalls perform calls s = (.ok (), t))
    (hkeeps : ∀ call ∈ calls, ∀ s s', perform call s = (.ok (), s') → P s → P s') (hs : P s) :
    P t := by
  induction calls generalizing s with
  | nil =>
      obtain ⟨-, rfl⟩ := Prod.mk.inj hrun
      exact hs
  | cons call calls ih =>
      obtain ⟨s', hcall, hrest⟩ := runCalls_cons_eq_ok.mp hrun
      exact ih hrest (fun call hmem => hkeeps call (List.mem_cons_of_mem _ hmem))
        (hkeeps call List.mem_cons_self s s' hcall hs)

/-- What every call keeps holds before each call that is made. -/
theorem Made.before_of_keeps {P : σ → Prop} (h : Made perform calls s call before after)
    (hkeeps : ∀ call ∈ calls, ∀ s s', perform call s = (.ok (), s') → P s → P s') (hs : P s) :
    P before := by
  obtain ⟨earlier, later, rfl, hearlier, -⟩ := h
  apply runCalls_keeps hearlier ?_ hs
  intro c hc
  exact hkeeps c (List.mem_append_left _ hc)

end Calls

/-! ## Drivers of stores and tables -/

/-- The driver that opened a store. -/
def DaoRef.driver : DaoRef → Driver
  | .none => .none
  | .memory => .memory
  | .audited => .audited
  | .file _ => .file

/-- The driver whose table it is. -/
def TableRef.driver : TableRef → Driver
  | .none => .none
  | .memory _ => .memory
  | .audited _ => .audited
  | .file _ _ => .file

theorem Driver.name_of_ofName? {name : String} {driver : Driver}
    (h : Driver.ofName? name = some driver) : driver.name = name := by
  have hname := List.find?_some h
  exact beq_iff_eq.mp hname

theorem Driver.name_injective {d d' : Driver} (h : d.name = d'.name) : d = d' := by
  cases d <;> cases d' <;> first | rfl | exact absurd h (by decide)

theorem exists_of_map_eq_ok {ε α β : Type} {f : α → β} {result : Except ε α} {b : β}
    (h : result.map f = .ok b) : ∃ a, result = .ok a ∧ f a = b := by
  cases result with
  | error e => cases h
  | ok a => exact ⟨a, rfl, Except.ok.inj h⟩

theorem Storage.driver_of_openDao {s s' : Storage} {driver : Driver} {options : Json}
    {dao : DaoRef} (h : s.openDao driver options = (.ok dao, s')) : dao.driver = driver := by
  cases driver with
  | none =>
      have hdao : Except.ok DaoRef.none = .ok dao := congrArg Prod.fst h
      rw [← Except.ok.inj hdao]
      rfl
  | memory =>
      simp only [openDao] at h
      split at h
      · rw [← Except.ok.inj (congrArg Prod.fst h)]
        rfl
      · cases h
  | file =>
      have hmap : (s.files.openDao options).1.map .file = .ok dao := congrArg Prod.fst h
      obtain ⟨path, -, rfl⟩ := exists_of_map_eq_ok hmap
      rfl
  | audited =>
      simp only [openDao] at h
      split at h
      · split at h
        · rw [← Except.ok.inj (congrArg Prod.fst h)]
          rfl
        · cases h
      · cases h

theorem Storage.driver_of_openTable {s s' : Storage} {dao : DaoRef} {m : SourceMeta}
    {table : TableRef} (h : s.openTable dao m = (.ok table, s')) : table.driver = dao.driver := by
  cases dao with
  | none =>
      have htable : Except.ok TableRef.none = .ok table := congrArg Prod.fst h
      rw [← Except.ok.inj htable]
      rfl
  | memory =>
      have htable : Except.ok (TableRef.memory m.ns) = .ok table := congrArg Prod.fst h
      rw [← Except.ok.inj htable]
      rfl
  | file path =>
      have hmap : (s.files.openTable path m.ns m.table).1.map (.file path) = .ok table :=
        congrArg Prod.fst h
      obtain ⟨name, -, rfl⟩ := exists_of_map_eq_ok hmap
      rfl
  | audited =>
      simp only [openTable] at h
      split at h
      · rw [← Except.ok.inj (congrArg Prod.fst h)]
        rfl
      · cases h

/-! ## Calls of a setup -/

/-- The dao key under which a call opens a store. -/
def Call.daoKey? : Call → Option String
  | .openDao daoKey _ _ => some daoKey
  | _ => none

/-- The namespace that a call opens a table for. -/
def Call.ns? : Call → Option String
  | .openTable _ m => some m.ns
  | _ => none

namespace Cache

variable {journal : Journal} {call : Call} {o o' : Opened}

theorem perform_openDao_eq_ok {daoKey name : String} {options : Json}
    (h : perform journal (.openDao daoKey name options) o = (.ok (), o')) :
    ∃ driver dao, driver.name = name ∧
      o.storage.openDao driver options = (.ok dao, o'.storage) ∧
      o'.daos = o.daos.insert daoKey dao ∧ o'.tables = o.tables := by
  rw [perform] at h
  split at h
  · cases h
  next driver hdriver =>
    split at h
    next dao storage hopen =>
      obtain ⟨-, rfl⟩ := Prod.mk.inj h
      exact ⟨driver, dao, Driver.name_of_ofName? hdriver, hopen, rfl, rfl⟩
    · cases h

theorem perform_openTable_eq_ok {daoKey : String} {m : SourceMeta}
    (h : perform journal (.openTable daoKey m) o = (.ok (), o')) :
    ∃ dao table, o.daos.get? daoKey = some dao ∧
      o.storage.openTable dao m = (.ok table, o'.storage) ∧
      o'.daos = o.daos ∧ o'.tables = o.tables.insert m.ns table := by
  rw [perform] at h
  split at h
  · cases h
  next dao hdao =>
    split at h
    next table storage hopen =>
      obtain ⟨-, rfl⟩ := Prod.mk.inj h
      exact ⟨dao, table, hdao, hopen, rfl, rfl⟩
    · cases h

theorem onDriver_eq_ok {name : String} {f : Driver → Storage → Except Error Unit × Storage}
    (h : onDriver name o f = (.ok (), o')) :
    ∃ driver, driver.name = name ∧ f driver o.storage = (.ok (), o'.storage) := by
  rw [onDriver] at h
  split at h
  · cases h
  next driver hdriver =>
    obtain ⟨hresult, rfl⟩ := Prod.mk.inj h
    refine ⟨driver, Driver.name_of_ofName? hdriver, ?_⟩
    cases hf : f driver o.storage with
    | mk result storage =>
        rw [hf] at hresult
        cases result with
        | error e => cases hresult
        | ok u => rfl

theorem perform_validate_eq_ok {name : String} {m : SourceMeta}
    (h : perform journal (.validate name m) o = (.ok (), o')) :
    ∃ driver, driver.name = name ∧ o.storage.validate driver m = (.ok (), o'.storage) :=
  onDriver_eq_ok (f := fun driver s => s.validate driver m) h

/-- A call on a driver changes the storage only. -/
theorem onDriver_snd (name : String) (o : Opened)
    (call : Driver → Storage → Except Error Unit × Storage) :
    (onDriver name o call).2.daos = o.daos ∧ (onDriver name o call).2.tables = o.tables := by
  rw [onDriver]
  split
  · exact ⟨rfl, rfl⟩
  · exact ⟨rfl, rfl⟩

/-- A store stays what it is while no other one is opened under its key. -/
theorem get?_daos_perform (h : perform journal call o = (.ok (), o')) {daoKey : String}
    (hcall : call.daoKey? ≠ some daoKey) : o'.daos.get? daoKey = o.daos.get? daoKey := by
  cases call with
  | init name options | validate name m | extend name m =>
      have hsnd : (onDriver name o _).2 = o' := congrArg Prod.snd h
      rw [← hsnd, (onDriver_snd _ _ _).1]
  | openDao key name options =>
      obtain ⟨driver, dao, -, -, hdaos, -⟩ := perform_openDao_eq_ok h
      have hne : key ≠ daoKey := fun heq => hcall (congrArg some heq)
      rw [hdaos, SortedMap.get?_insert, if_neg hne]
  | openTable key m =>
      obtain ⟨dao, table, -, -, hdaos, -⟩ := perform_openTable_eq_ok h
      rw [hdaos]
  | recover ns => rw [← (Prod.mk.inj h).2]

/-- A table stays what it is while no other one is opened for its namespace. -/
theorem get?_tables_perform (h : perform journal call o = (.ok (), o')) {ns : String}
    (hcall : call.ns? ≠ some ns) : o'.tables.get? ns = o.tables.get? ns := by
  cases call with
  | init name options | validate name m | extend name m =>
      have hsnd : (onDriver name o _).2 = o' := congrArg Prod.snd h
      rw [← hsnd, (onDriver_snd _ _ _).2]
  | openDao key name options =>
      obtain ⟨driver, dao, -, -, -, htables⟩ := perform_openDao_eq_ok h
      rw [htables]
  | openTable key m =>
      obtain ⟨dao, table, -, -, -, htables⟩ := perform_openTable_eq_ok h
      have hne : m.ns ≠ ns := fun heq => hcall (congrArg some heq)
      rw [htables, SortedMap.get?_insert, if_neg hne]
  | recover ns => rw [← (Prod.mk.inj h).2]

variable {calls : List Call} {before after final : Opened}

/-- A store that is there in the course of the calls is there in the end, if none is opened under
its key twice. -/
theorem get?_daos_final (hkeys : (calls.filterMap Call.daoKey?).Nodup)
    (hrun : runCalls (perform journal) calls o = (.ok (), final))
    (hmade : Made (perform journal) calls o call before after) {daoKey : String} {dao : DaoRef}
    (hnone : o.daos.get? daoKey = none) (hdao : after.daos.get? daoKey = some dao) :
    final.daos.get? daoKey = some dao := by
  obtain ⟨earlier, later, rfl, hearlier, hcall⟩ := hmade
  have hbefore : runCalls (perform journal) (earlier ++ [call]) o = (.ok (), after) :=
    runCalls_append_eq_ok.mpr ⟨before, hearlier, runCalls_cons_eq_ok.mpr ⟨after, hcall, rfl⟩⟩
  rw [← List.singleton_append, ← List.append_assoc] at hkeys hrun
  obtain ⟨after', hbefore', hlater⟩ := runCalls_append_eq_ok.mp hrun
  obtain rfl : after = after' := congrArg Prod.snd (hbefore.symm.trans hbefore')
  rw [List.filterMap_append] at hkeys
  -- The call that opened the store stands in front, so no later one opens another.
  have hopened : daoKey ∈ (earlier ++ [call]).filterMap Call.daoKey? := by
    by_contra hnot
    have hkept : after.daos.get? daoKey = none := by
      apply runCalls_keeps (P := fun o => o.daos.get? daoKey = none) hbefore ?_ hnone
      intro c hc s s' hperform hs
      rw [get?_daos_perform hperform, hs]
      exact fun hkey => hnot (List.mem_filterMap.mpr ⟨c, hc, hkey⟩)
    rw [hkept] at hdao
    cases hdao
  apply runCalls_keeps (P := fun o => o.daos.get? daoKey = some dao) hlater ?_ hdao
  intro c hc s s' hperform hs
  rw [get?_daos_perform hperform, hs]
  intro hkey
  exact List.disjoint_of_nodup_append hkeys hopened (List.mem_filterMap.mpr ⟨c, hc, hkey⟩)

/-- A table is there in the end, if none is opened for its namespace twice. -/
theorem get?_tables_final (hns : (calls.filterMap Call.ns?).Nodup)
    (hrun : runCalls (perform journal) calls o = (.ok (), final))
    (hmade : Made (perform journal) calls o call before after) {ns : String} {table : TableRef}
    (hcall : call.ns? = some ns) (htable : after.tables.get? ns = some table) :
    final.tables.get? ns = some table := by
  obtain ⟨earlier, later, rfl, hearlier, hperform⟩ := hmade
  obtain ⟨before', hearlier', hrest⟩ := runCalls_append_eq_ok.mp hrun
  obtain rfl : before = before' := congrArg Prod.snd (hearlier.symm.trans hearlier')
  obtain ⟨after', hperform', hlater⟩ := runCalls_cons_eq_ok.mp hrest
  obtain rfl : after = after' := congrArg Prod.snd (hperform.symm.trans hperform')
  rw [List.filterMap_append, List.filterMap_cons_some hcall] at hns
  apply runCalls_keeps (P := fun o => o.tables.get? ns = some table) hlater ?_ htable
  intro c hc s s' hperform hs
  rw [get?_tables_perform hperform, hs]
  intro hkey
  have hfresh := (List.nodup_cons.mp (List.nodup_append.mp hns).2.1).1
  exact hfresh (List.mem_filterMap.mpr ⟨c, hc, hkey⟩)

end Cache

/-! ## The calls of a plan -/

namespace SortedMap

theorem nodup_keys {β : Type} (m : SortedMap β) : m.keys.Nodup := by
  have hsorted : m.keys.Pairwise (· < ·) := List.pairwise_map.mpr m.sorted
  exact hsorted.imp (fun hlt => String.ne_of_lt hlt)

end SortedMap

theorem Registry.Arises.map_ns {r : Registry} (h : r.Arises) :
    r.sources.values.map (·.ns) = r.sources.keys := by
  rw [SortedMap.values, SortedMap.keys, List.map_map]
  refine List.map_congr_left fun e he => ?_
  exact h.keyed (SortedMap.get?_eq_some_iff.mpr he)

namespace Plan

variable {c : Configurator} {ms : List SourceMeta} {p : Plan}

/-- Every store is opened once. -/
theorem daoKeys_calls (p : Plan) : p.calls.filterMap Call.daoKey? = p.daos.keys := by
  rw [calls]
  split
  · simp [List.filterMap_map, List.filterMap_flatMap, Function.comp_def, Call.daoKey?,
      SortedMap.keys]
  · simp [List.filterMap_map, List.filterMap_flatMap, Function.comp_def, Call.daoKey?,
      SortedMap.keys]

/-- Every stored source gets one table. -/
theorem namespaces_calls (p : Plan) : p.calls.filterMap Call.ns? = p.stored.map (·.1.ns) := by
  rw [calls]
  split
  · simp [List.filterMap_map, List.filterMap_flatMap, Function.comp_def, Call.ns?]
  · simp [List.filterMap_map, List.filterMap_flatMap, Function.comp_def, Call.ns?]

theorem sublist_stored (p : Plan) :
    (p.stored.map (·.1.ns)).Sublist (p.sources.map (·.source.ns)) := by
  rw [stored]
  induction p.sources with
  | nil => exact .slnil
  | cons s rest ih =>
      rw [List.filterMap_cons]
      cases s.options with
      | none => exact ih.cons s.source.ns
      | some options => exact ih.cons_cons s.source.ns

theorem Lists.map_ns (h : p.Lists c ms) : p.sources.map (·.source.ns) = ms.map (·.ns) := by
  rw [h.sources, List.map_map]
  rfl

theorem Lists.exists_dao (h : p.Lists c ms) {m : SourceMeta} (hm : m ∈ ms)
    (hstored : m.isPersisted = true) : ∃ options daoOptions first,
      c.tableOptions m.driver m.ns = some options ∧
      c.daoOptions options.daoKey = some daoOptions ∧
      c.firstUnder options.daoKey ms = some first ∧
      p.daos.get? options.daoKey = some (first.driver, daoOptions) := by
  obtain ⟨options, daoOptions, hoptions, hdao⟩ := h.resolved m hm hstored
  have hsome : (c.firstUnder options.daoKey ms).isSome = true := by
    rw [Configurator.firstUnder, List.find?_isSome]
    exact ⟨m, hm, by simp [hstored, hoptions]⟩
  obtain ⟨first, hfirst⟩ := Option.isSome_iff_exists.mp hsome
  refine ⟨options, daoOptions, first, hoptions, hdao, hfirst, ?_⟩
  rw [h.daos, hfirst, hdao]
  rfl

theorem mem_calls_openDao {daoKey driver : String} {options : Json}
    (h : p.daos.get? daoKey = some (driver, options)) :
    Call.openDao daoKey driver options ∈ p.calls := by
  have hentry := SortedMap.get?_eq_some_iff.mp h
  simp only [calls, List.mem_append, List.mem_map]
  exact .inl (.inl (.inr ⟨_, hentry, rfl⟩))

theorem mem_calls_validate {m : SourceMeta} {options : TableOptions}
    (h : (m, options) ∈ p.stored) : Call.validate m.driver m ∈ p.calls := by
  simp only [calls, List.mem_append, List.mem_flatMap]
  exact .inl (.inl (.inl (.inr ⟨_, h, List.mem_cons_self⟩)))

theorem mem_calls_openTable {m : SourceMeta} {options : TableOptions}
    (h : (m, options) ∈ p.stored) : Call.openTable options.daoKey m ∈ p.calls := by
  simp only [calls, List.mem_append, List.mem_map]
  exact .inl (.inr ⟨_, h, rfl⟩)

end Plan

end WriteBehind
