import WriteBehind.Proofs.DrySetups
import WriteBehind.Proofs.Installation
import WriteBehind.Proofs.PlainRepo
import WriteBehind.Proofs.TableOwners
import WriteBehind.Proofs.WireForm

/-!
# The phases of a setup

A setup first resolves the options of every source, and if it cannot, nothing is done: the
error is that of the first source, in the order of namespaces, that has a fault
(`Registry.Fault`).  Then it does phase by phase what there is to do (`Agenda.deeds`): drivers
are initialised, sources validated and extended, stores opened, tables opened, journals
recovered, and savers started, the last two not on a dry run.  Which drivers, sources and
stores these are follows from the registry and the settings alone (`Agenda.For`).

`Registry.rollOut` is a setup on any drivers, of which only is known what they answer, and
`recording` writes down what is asked of them and how that goes.  What it writes down is a
beginning of the agenda, of which all but the last entry went well (`Trail`).  The setup of
this library rolls its registry out on its own drivers (`Cache.rollsOut`).
-/

namespace WriteBehind

/-! ## Trails -/

section Trails

variable {γ σ ε : Type} {perform : γ → σ → Except ε Unit × σ} {call : γ} {calls : List γ}
  {answer : Except ε Unit} {trail : List (γ × Except ε Unit)}

/-- Makes a call and writes down how it goes. -/
def recording (perform : γ → σ → Except ε Unit × σ) (call : γ)
    (s : σ × List (γ × Except ε Unit)) : Except ε Unit × σ × List (γ × Except ε Unit) :=
  let (answer, t) := perform call s.1
  (answer, t, s.2 ++ [(call, answer)])

/-- How calls go one after the other, and how that ends. -/
inductive Trail (calls : List γ) : Except ε Unit → List (γ × Except ε Unit) → Prop
  | complete : Trail calls (.ok ()) (calls.map (·, .ok ()))
  | broken (earlier later : List γ) {call : γ} (e : ε) (h : calls = earlier ++ call :: later) :
      Trail calls (.error e) (earlier.map (·, .ok ()) ++ [(call, .error e)])

theorem Trail.cons (h : Trail calls answer trail) :
    Trail (call :: calls) answer ((call, .ok ()) :: trail) := by
  cases h with
  | complete => exact .complete
  | broken earlier later e h =>
      apply Trail.broken (call :: earlier) later
      rw [h, List.cons_append]

/-- Calls go as they do, recorded or not, and what is recorded is their trail. -/
theorem runCalls_recording (perform : γ → σ → Except ε Unit × σ) (calls : List γ) (s : σ)
    (log : List (γ × Except ε Unit)) :
    ∃ trail, runCalls (recording perform) calls (s, log) =
      ((runCalls perform calls s).1, (runCalls perform calls s).2, log ++ trail) ∧
      Trail calls (runCalls perform calls s).1 trail := by
  induction calls generalizing s log with
  | nil => exact ⟨[], by rw [List.append_nil]; rfl, .complete⟩
  | cons call calls ih =>
      cases hcall : perform call s with
      | mk answer t =>
          cases answer with
          | error e =>
              refine ⟨[(call, .error e)], ?_, ?_⟩
              · simp only [runCalls, recording, hcall]
              · simp only [runCalls, hcall]
                exact .broken [] calls e rfl
          | ok u =>
              obtain ⟨trail, hrun, htrail⟩ := ih t (log ++ [(call, .ok ())])
              refine ⟨(call, .ok ()) :: trail, ?_, ?_⟩
              · simp only [runCalls, recording, hcall]
                rw [← List.append_cons] at hrun
                exact hrun
              · simp only [runCalls, hcall]
                exact htrail.cons

theorem runCalls_append (calls more : List γ) (s : σ) :
    runCalls perform (calls ++ more) s =
      match runCalls perform calls s with
      | (.ok (), t) => runCalls perform more t
      | (.error e, t) => (.error e, t) := by
  induction calls generalizing s with
  | nil => rfl
  | cons call calls ih =>
      rw [List.cons_append, runCalls, runCalls]
      split
      · exact ih _
      · rfl

end Trails

/-! ## What there is to do -/

/-- What a setup does: it calls a driver, or starts the workers of a saver. -/
inductive Deed where
  | call (c : Call)
  | start (ns : String) (concurrence : Nat)

namespace Deed

/-- The driver that a deed names. -/
def driver? : Deed → Option String
  | .call (.init driver _) | .call (.validate driver _) | .call (.extend driver _)
  | .call (.openDao _ driver _) => some driver
  | .call (.openTable _ _) | .call (.recover _) | .start _ _ => none

/-- The namespace of the source that a deed is for. -/
def ns? : Deed → Option String
  | .call (.validate _ m) | .call (.extend _ m) | .call (.openTable _ m) => some m.ns
  | .call (.recover ns) | .start ns _ => some ns
  | .call (.init _ _) | .call (.openDao _ _ _) => none

end Deed

/-- What a setup has to do with: the drivers, the stored sources with their options, and the
stores by dao key, each with its driver and options. -/
structure Agenda where
  drivers : List String
  stored : List (SourceMeta × TableOptions)
  daos : List (String × String × Json)

/-- The phases of a setup.  On a dry run it leaves journals and savers alone. -/
def Agenda.phases (a : Agenda) (c : Configurator) : List (List Deed) :=
  [a.drivers.map fun driver => .call (.init driver (c.driverOptions driver)),
    a.stored.flatMap fun (m, _) => [.call (.validate m.driver m), .call (.extend m.driver m)],
    a.daos.map fun (daoKey, driver, options) => .call (.openDao daoKey driver options),
    a.stored.map fun (m, options) => .call (.openTable options.daoKey m),
    if c.dryRun then [] else a.stored.map fun (m, _) => .call (.recover m.ns),
    if c.dryRun then [] else a.stored.map fun (m, options) => .start m.ns options.concurrence]

/-- The deeds of a setup, one phase after the other. -/
def Agenda.deeds (a : Agenda) (c : Configurator) : List Deed := (a.phases c).flatten

/-- What a registry and settings give a setup to do. -/
structure Agenda.For (a : Agenda) (r : Registry) (c : Configurator) : Prop where
  /-- The drivers of the stored sources, each once. -/
  drivers : a.drivers.Pairwise (· < ·)
  mem_drivers : ∀ driver, driver ∈ a.drivers ↔
    ∃ m ∈ r.sources.values, m.isPersisted = true ∧ m.driver = driver
  /-- The stored sources, each once, in the order of namespaces. -/
  stored : a.stored.map (·.1) = r.sources.values.filter (·.isPersisted)
  ordered : (a.stored.map (·.1.ns)).Pairwise (· < ·)
  options : ∀ s ∈ a.stored, c.tableOptions s.1.driver s.1.ns = some s.2
  /-- The stores that they name, each once, with the driver of the first one that does. -/
  daos : (a.daos.map (·.1)).Pairwise (· < ·)
  mem_daoKeys : ∀ daoKey, daoKey ∈ a.daos.map (·.1) ↔ ∃ s ∈ a.stored, s.2.daoKey = daoKey
  mem_daos : ∀ daoKey driver options, (daoKey, driver, options) ∈ a.daos ↔
    ∃ first, c.firstUnder daoKey r.sources.values = some first ∧ first.driver = driver ∧
      c.daoOptions daoKey = some options

/-- Why the options of a source cannot be resolved. -/
inductive Registry.Fault (drivers : List String) (c : Configurator) (m : SourceMeta) :
    Error → Prop
  | unknownDriver (unknown : m.driver ∉ drivers) :
      Fault drivers c m (.unknownDriver m.driver)
  | missingTableOptions (known : m.driver ∈ drivers) (stored : m.isPersisted = true)
      (missing : c.tableOptions m.driver m.ns = none) :
      Fault drivers c m (.missingTableOptions m.driver m.ns)
  | missingDaoKey (known : m.driver ∈ drivers) (stored : m.isPersisted = true)
      {options : TableOptions} (given : c.tableOptions m.driver m.ns = some options)
      (missing : options.daoKey = "") : Fault drivers c m (.missingDaoKey m.ns)
  | missingDaoOptions (known : m.driver ∈ drivers) (stored : m.isPersisted = true)
      {options : TableOptions} (given : c.tableOptions m.driver m.ns = some options)
      (named : options.daoKey ≠ "") (missing : c.daoOptions options.daoKey = none) :
      Fault drivers c m (.missingDaoOptions options.daoKey)

/-! ## Faults -/

theorem SortedMap.isSome_get? {β : Type} {map : SortedMap β} {key : String} :
    (map.get? key).isSome = true ↔ key ∈ map.keys := by
  rw [keys, List.mem_map, Option.isSome_iff_exists]
  constructor
  · rintro ⟨value, hvalue⟩
    exact ⟨_, get?_eq_some_iff.mp hvalue, rfl⟩
  · rintro ⟨⟨k, value⟩, hmem, rfl⟩
    exact ⟨value, get?_eq_some_iff.mpr hmem⟩

theorem SourceMeta.isPersisted_iff {m : SourceMeta} :
    m.isPersisted = true ↔ m.driver ≠ noStorage := by
  simp [isPersisted]

namespace Plan

variable {drivers : List String} {c : Configurator} {m : SourceMeta} {ms : List SourceMeta}
  {p p' : Plan} {e : Error}

open Registry (Fault)

/-- A plan takes no source in that has a fault, and any other one. -/
theorem add_eq_error_iff : p.add drivers c m = .error e ↔ Fault drivers c m e := by
  rw [add]
  constructor
  · intro h
    split at h
    next hunknown =>
      obtain rfl := Except.error.inj h
      exact .unknownDriver hunknown
    next hknown =>
      have hknown := not_not.mp hknown
      split at h
      · cases h
      next hstored =>
        have hstored := SourceMeta.isPersisted_iff.mpr hstored
        split at h
        next hmissing =>
          obtain rfl := Except.error.inj h
          exact .missingTableOptions hknown hstored hmissing
        next options hoptions =>
          split at h
          next hempty =>
            obtain rfl := Except.error.inj h
            exact .missingDaoKey hknown hstored hoptions (String.isEmpty_iff.mp hempty)
          next hnamed =>
            split at h
            next hmissing =>
              obtain rfl := Except.error.inj h
              exact .missingDaoOptions hknown hstored hoptions
                (fun hkey => hnamed (String.isEmpty_iff.mpr hkey)) hmissing
            · cases h
  · intro h
    cases h with
    | unknownDriver hunknown => rw [if_pos hunknown]
    | missingTableOptions hknown hstored hmissing =>
        rw [if_neg (not_not_intro hknown), if_neg (SourceMeta.isPersisted_iff.mp hstored)]
        simp only [hmissing]
    | missingDaoKey hknown hstored hoptions hempty =>
        rw [if_neg (not_not_intro hknown), if_neg (SourceMeta.isPersisted_iff.mp hstored)]
        simp only [hoptions, String.isEmpty_iff.mpr hempty, if_true]
    | missingDaoOptions hknown hstored hoptions hnamed hmissing =>
        rw [if_neg (not_not_intro hknown), if_neg (SourceMeta.isPersisted_iff.mp hstored)]
        simp only [hoptions, String.isEmpty_iff, hnamed, if_false, hmissing]

/-- A plan fails with the fault of the first source that has one. -/
theorem addAll_cases (drivers : List String) (c : Configurator) (p : Plan)
    (ms : List SourceMeta) :
    (∃ p', p.addAll drivers c ms = .ok p' ∧ ∀ m ∈ ms, ∀ e, ¬ Fault drivers c m e) ∨
      ∃ before m after e, ms = before ++ m :: after ∧ Fault drivers c m e ∧
        (∀ m' ∈ before, ∀ e', ¬ Fault drivers c m' e') ∧ p.addAll drivers c ms = .error e := by
  induction ms generalizing p with
  | nil => exact .inl ⟨p, rfl, fun m hm => absurd hm List.not_mem_nil⟩
  | cons m ms ih =>
      cases hadd : p.add drivers c m with
      | error e =>
          refine .inr ⟨[], m, ms, e, rfl, add_eq_error_iff.mp hadd, ?_, ?_⟩
          · exact fun m' hm' => absurd hm' List.not_mem_nil
          · rw [addAll, hadd]
      | ok next =>
          have hclear : ∀ e, ¬ Fault drivers c m e := by
            intro e hfault
            rw [add_eq_error_iff.mpr hfault] at hadd
            cases hadd
          rcases ih next with
            ⟨p', hrest, hclears⟩ | ⟨before, m', after, e, rfl, hfault, hclears, hrest⟩
          · refine .inl ⟨p', by rw [addAll, hadd]; exact hrest, ?_⟩
            intro m' hm'
            rcases List.mem_cons.mp hm' with rfl | hm'
            · exact hclear
            · exact hclears m' hm'
          · refine .inr ⟨m :: before, m', after, e, rfl, hfault, ?_, ?_⟩
            · intro m'' hm''
              rcases List.mem_cons.mp hm'' with rfl | hm''
              · exact hclear
              · exact hclears m'' hm''
            · rw [addAll, hadd]
              exact hrest

/-! ## Plans and agendas -/

/-- A source that is taken in is planned without storage, or with options that are resolved. -/
theorem add_eq_ok (h : p.add drivers c m = .ok p') :
    m.isPersisted = false ∧ p' = { p with sources := p.sources ++ [⟨m, none⟩] } ∨
      ∃ options daoOptions, m.isPersisted = true ∧ p' = p.addStored c m options daoOptions := by
  rw [add] at h
  split at h
  · cases h
  split at h
  next hnone =>
    refine .inl ⟨?_, (Except.ok.inj h).symm⟩
    simp [SourceMeta.isPersisted, hnone]
  next hstored =>
    split at h
    · cases h
    next options hoptions =>
      split at h
      · cases h
      split at h
      · cases h
      next daoOptions hdao =>
        exact .inr ⟨options, daoOptions, SourceMeta.isPersisted_iff.mpr hstored,
          (Except.ok.inj h).symm⟩

/-- The drivers of a plan are those of its stored sources, with the options of the settings. -/
theorem get?_drivers_addAll (h : p.addAll drivers c ms = .ok p') (driver : String) :
    p'.drivers.get? driver = (p.drivers.get? driver).or
      (if ms.any fun m => m.isPersisted && m.driver == driver then some (c.driverOptions driver)
        else none) := by
  induction ms generalizing p with
  | nil =>
      obtain rfl := Except.ok.inj h
      exact Option.or_none.symm
  | cons m ms ih =>
      rw [addAll] at h
      split at h
      next next hnext =>
        have hstep : next.drivers.get? driver = (p.drivers.get? driver).or
            (if m.isPersisted && m.driver == driver then some (c.driverOptions driver)
              else none) := by
          rcases add_eq_ok hnext with ⟨hnone, rfl⟩ | ⟨options, daoOptions, hstored, rfl⟩
          · simp [hnone]
          · rw [addStored, get?_insertNew, hstored, Bool.true_and]
            by_cases hdriver : m.driver = driver
            · subst hdriver
              simp
            · simp [hdriver]
        rw [ih h, hstep, Option.or_assoc, List.any_cons]
        cases m.isPersisted && m.driver == driver <;> simp
      · cases h

theorem Lists.map_stored (h : p.Lists c ms) :
    p.stored.map (·.1) = ms.filter (·.isPersisted) := by
  have hresolved := h.resolved
  rw [stored, h.sources, List.filterMap_map]
  clear h
  induction ms with
  | nil => rfl
  | cons m ms ih =>
      have hrest := ih fun m' hm' => hresolved m' (List.mem_cons_of_mem m hm')
      rw [List.filterMap_cons, List.filter_cons]
      cases hstored : m.isPersisted with
      | false => simpa [hstored] using hrest
      | true =>
          obtain ⟨options, -, hoptions, -⟩ := hresolved m List.mem_cons_self hstored
          simpa [hstored, hoptions] using hrest

/-- What a plan gives a setup to do. -/
def agenda (p : Plan) : Agenda := ⟨p.drivers.keys, p.stored, p.daos.entries⟩

/-- What a setup does with a plan. -/
def deeds (p : Plan) : List Deed :=
  p.calls.map .call ++
    if p.dryRun then [] else p.stored.map fun (m, options) => .start m.ns options.concurrence

theorem deeds_eq {r : Registry} (h : Plan.ofRegistry r c = .ok p) :
    p.deeds = p.agenda.deeds c := by
  have hdryRun : p.dryRun = c.dryRun := dryRun_addAll h
  have hinits : (p.drivers.entries.map fun e => Deed.call (.init e.1 e.2)) =
      p.drivers.keys.map fun driver => .call (.init driver (c.driverOptions driver)) := by
    rw [SortedMap.keys, List.map_map]
    apply List.map_congr_left
    rintro ⟨driver, options⟩ hmem
    have hget := SortedMap.get?_eq_some_iff.mpr hmem
    rw [get?_drivers_addAll h, SortedMap.get?_empty, Option.none_or] at hget
    split at hget
    · rw [Function.comp_apply, Option.some.inj hget]
    · cases hget
  rw [deeds, calls, agenda, Agenda.deeds, Agenda.phases, hdryRun, ← hinits]
  cases c.dryRun <;>
    simp [List.map_flatMap, Function.comp_def]

end Plan

namespace Registry

variable {r : Registry} {c : Configurator} {p : Plan}

theorem Arises.pairwise_ns (hr : r.Arises) :
    r.sources.values.Pairwise fun m m' => m.ns < m'.ns := by
  rw [← List.pairwise_map (f := SourceMeta.ns), hr.map_ns]
  exact List.pairwise_map.mpr r.sources.sorted

end Registry

theorem Plan.agenda_for {r : Registry} {c : Configurator} {p : Plan} (hr : r.Arises)
    (h : Plan.ofRegistry r c = .ok p) : p.agenda.For r c := by
  have hlists := Plan.lists_of_registry h
  have hstored := hlists.map_stored
  have hnamespaces : p.stored.map (·.1.ns) =
      (r.sources.values.filter (·.isPersisted)).map (·.ns) := by
    rw [← hstored, List.map_map]
    rfl
  constructor
  · exact List.pairwise_map.mpr p.drivers.sorted
  · intro driver
    rw [agenda, ← SortedMap.isSome_get?, get?_drivers_addAll h, SortedMap.get?_empty,
      Option.none_or]
    simp only [Option.isSome_ite, List.any_eq_true, Bool.and_eq_true, beq_iff_eq]
  · exact hstored
  · rw [agenda, hnamespaces]
    exact List.pairwise_map.mpr (hr.pairwise_ns.sublist List.filter_sublist)
  · rintro ⟨m, options⟩ hs
    exact (hlists.mem_stored_iff.mp hs).2.2
  · exact List.pairwise_map.mpr p.daos.sorted
  · intro daoKey
    constructor
    · intro hkey
      obtain ⟨⟨key, driver, options⟩, hentry, rfl⟩ := List.mem_map.mp hkey
      have hget := SortedMap.get?_eq_some_iff.mpr hentry
      rw [hlists.daos, Option.bind_eq_some_iff] at hget
      obtain ⟨first, hfirst, -⟩ := hget
      obtain ⟨hmem, hpersisted, tableOptions, hoptions, hnamed⟩ :=
        Configurator.firstUnder_eq_some hfirst
      exact ⟨(first, tableOptions), hlists.mem_stored_iff.mpr ⟨hmem, hpersisted, hoptions⟩, hnamed⟩
    · rintro ⟨⟨m, options⟩, hs, rfl⟩
      obtain ⟨hmem, hpersisted, hoptions⟩ := hlists.mem_stored_iff.mp hs
      obtain ⟨options', daoOptions, first, hoptions', -, -, hdao⟩ :=
        hlists.exists_dao hmem hpersisted
      obtain rfl := Option.some.inj (hoptions.symm.trans hoptions')
      exact List.mem_map.mpr ⟨_, SortedMap.get?_eq_some_iff.mp hdao, rfl⟩
  · intro daoKey driver options
    rw [agenda, ← SortedMap.get?_eq_some_iff, hlists.daos, Option.bind_eq_some_iff]
    simp only [Option.map_eq_some_iff, Prod.mk.injEq]
    constructor
    · rintro ⟨first, hfirst, options', hoptions, hdriver, rfl⟩
      exact ⟨first, hfirst, hdriver, hoptions⟩
    · rintro ⟨first, hfirst, hdriver, hoptions⟩
      exact ⟨first, hfirst, options, hoptions, hdriver, rfl⟩

/-! ## Sources without storage -/

namespace Agenda

variable {a : Agenda} {r : Registry} {c : Configurator} {deed : Deed}

/-- A deed concerns a driver, a stored source or a store of the agenda. -/
theorem mem_deeds (h : deed ∈ a.deeds c) :
    (∃ driver ∈ a.drivers, deed.driver? = some driver ∧ deed.ns? = none) ∨
      (∃ s ∈ a.stored, (deed.driver? = some s.1.driver ∨ deed.driver? = none) ∧
        deed.ns? = some s.1.ns) ∨
      ∃ e ∈ a.daos, deed.driver? = some e.2.1 ∧ deed.ns? = none := by
  obtain ⟨phase, hphase, hdeed⟩ := List.mem_flatten.mp h
  simp only [phases, List.mem_cons, List.not_mem_nil, or_false] at hphase
  rcases hphase with rfl | rfl | rfl | rfl | rfl | rfl
  · obtain ⟨driver, hdriver, rfl⟩ := List.mem_map.mp hdeed
    exact .inl ⟨driver, hdriver, rfl, rfl⟩
  · obtain ⟨s, hs, hchecks⟩ := List.mem_flatMap.mp hdeed
    rcases List.mem_cons.mp hchecks with rfl | hextend
    · exact .inr (.inl ⟨s, hs, .inl rfl, rfl⟩)
    · obtain rfl := List.mem_singleton.mp hextend
      exact .inr (.inl ⟨s, hs, .inl rfl, rfl⟩)
  · obtain ⟨e, he, rfl⟩ := List.mem_map.mp hdeed
    exact .inr (.inr ⟨e, he, rfl, rfl⟩)
  · obtain ⟨s, hs, rfl⟩ := List.mem_map.mp hdeed
    exact .inr (.inl ⟨s, hs, .inr rfl, rfl⟩)
  · split at hdeed
    · cases hdeed
    · obtain ⟨s, hs, rfl⟩ := List.mem_map.mp hdeed
      exact .inr (.inl ⟨s, hs, .inr rfl, rfl⟩)
  · split at hdeed
    · cases hdeed
    · obtain ⟨s, hs, rfl⟩ := List.mem_map.mp hdeed
      exact .inr (.inl ⟨s, hs, .inr rfl, rfl⟩)

theorem For.mem_stored (h : a.For r c) {s : SourceMeta × TableOptions} (hs : s ∈ a.stored) :
    s.1 ∈ r.sources.values ∧ s.1.isPersisted = true := by
  have hmem : s.1 ∈ a.stored.map (·.1) := List.mem_map_of_mem hs
  rw [h.stored] at hmem
  exact List.mem_filter.mp hmem

/-- Nothing is asked of the driver that stores nothing. -/
theorem For.driver_ne_noStorage (h : a.For r c) (hdeed : deed ∈ a.deeds c) :
    deed.driver? ≠ some noStorage := by
  intro hnone
  rcases mem_deeds hdeed with ⟨driver, hdriver, hcalled, -⟩ | ⟨s, hs, hcalled, -⟩ |
    ⟨⟨daoKey, driver, options⟩, he, hcalled, -⟩
  · obtain ⟨m, -, hstored, rfl⟩ := (h.mem_drivers driver).mp hdriver
    exact SourceMeta.isPersisted_iff.mp hstored (Option.some.inj (hcalled.symm.trans hnone))
  · rcases hcalled with hcalled | hcalled
    · exact SourceMeta.isPersisted_iff.mp (h.mem_stored hs).2
        (Option.some.inj (hcalled.symm.trans hnone))
    · rw [hcalled] at hnone
      cases hnone
  · obtain ⟨first, hfirst, hdriver, -⟩ := (h.mem_daos daoKey driver options).mp he
    obtain ⟨-, hstored, -⟩ := Configurator.firstUnder_eq_some hfirst
    exact SourceMeta.isPersisted_iff.mp hstored
      (hdriver.trans (Option.some.inj (hcalled.symm.trans hnone)))

/-- Nothing is done for a source without storage. -/
theorem For.ns_ne (h : a.For r c) (hr : r.Arises) (hdeed : deed ∈ a.deeds c) {m : SourceMeta}
    (hm : m ∈ r.sources.values) (hunstored : m.isPersisted = false) :
    deed.ns? ≠ some m.ns := by
  intro hns
  rcases mem_deeds hdeed with ⟨-, -, -, hnone⟩ | ⟨s, hs, -, hsome⟩ | ⟨-, -, -, hnone⟩
  · rw [hnone] at hns
    cases hns
  · obtain ⟨hmem, hstored⟩ := h.mem_stored hs
    have hsame : s.1 = m := hr.eq_of_ns hmem hm (Option.some.inj (hsome.symm.trans hns))
    rw [hsame, hunstored] at hstored
    cases hstored
  · rw [hnone] at hns
    cases hns

end Agenda

/-! ## Setups on any drivers -/

namespace Registry

variable {r : Registry} {c : Configurator} {σ : Type} {s t : σ}

/-- A setup, where `perform` says what becomes of each of its deeds. -/
def rollOut (r : Registry) (perform : Deed → σ → Except Failure Unit × σ) (c : Configurator)
    (s : σ) : Except Failure Unit × σ :=
  match Plan.ofRegistry r c with
  | .error e => (.error (.error e), s)
  | .ok plan => runCalls perform plan.deeds s

/-- How a setup goes, from one state to another one, and what is done on the way. -/
inductive Unfolds (r : Registry) (c : Configurator) (s : σ) :
    Except Failure Unit → σ → List (Deed × Except Failure Unit) → Prop
  | unresolved {m : SourceMeta} {e : Error} (mem : m ∈ r.sources.values)
      (fault : Fault r.drivers c m e)
      (first : ∀ m' ∈ r.sources.values, m'.ns < m.ns → ∀ e', ¬ Fault r.drivers c m' e') :
      Unfolds r c s (.error (.error e)) s []
  | resolved {a : Agenda} {answer : Except Failure Unit} {t : σ}
      {trail : List (Deed × Except Failure Unit)}
      (clear : ∀ m ∈ r.sources.values, ∀ e, ¬ Fault r.drivers c m e) (agenda : a.For r c)
      (idle : ∀ deed ∈ a.deeds c, deed.driver? ≠ some noStorage ∧
        ∀ m ∈ r.sources.values, m.isPersisted = false → deed.ns? ≠ some m.ns)
      (went : Trail (a.deeds c) answer trail) : Unfolds r c s answer t trail

theorem exists_unfolds (hr : r.Arises) (c : Configurator)
    (perform : Deed → σ → Except Failure Unit × σ) (s : σ) :
    ∃ answer t trail, r.rollOut perform c s = (answer, t) ∧
      r.rollOut (recording perform) c (s, []) = (answer, t, trail) ∧
      r.Unfolds c s answer t trail := by
  rcases Plan.addAll_cases r.drivers c { dryRun := c.dryRun } r.sources.values with
    ⟨plan, hplan, hclear⟩ | ⟨before, m, after, e, hvalues, hfault, hclear, hplan⟩
  · have hplan : Plan.ofRegistry r c = .ok plan := hplan
    have hagenda := Plan.agenda_for hr hplan
    obtain ⟨trail, hrun, htrail⟩ := runCalls_recording perform plan.deeds s []
    refine ⟨(runCalls perform plan.deeds s).1, (runCalls perform plan.deeds s).2, trail, ?_, ?_, ?_⟩
    · simp only [rollOut, hplan]
    · simp only [rollOut, hplan, hrun, List.nil_append]
    · rw [Plan.deeds_eq hplan] at htrail ⊢
      refine .resolved hclear hagenda ?_ htrail
      intro deed hdeed
      exact ⟨hagenda.driver_ne_noStorage hdeed,
        fun m hm hunstored => hagenda.ns_ne hr hdeed hm hunstored⟩
  · have hplan : Plan.ofRegistry r c = .error e := hplan
    refine ⟨.error (.error e), s, [], ?_, ?_, ?_⟩
    · simp only [rollOut, hplan]
    · simp only [rollOut, hplan]
    have hsorted := hr.pairwise_ns
    rw [hvalues, List.pairwise_append, List.pairwise_cons] at hsorted
    apply Unfolds.unresolved (m := m)
    · rw [hvalues]
      exact List.mem_append_right before List.mem_cons_self
    · exact hfault
    · intro m' hm' hlt
      rw [hvalues] at hm'
      -- A source with a smaller namespace stands before the first one with a fault.
      rcases List.mem_append.mp hm' with hbefore | hrest
      · exact hclear m' hbefore
      · rcases List.mem_cons.mp hrest with rfl | hafter
        · exact absurd hlt (lt_irrefl m'.ns)
        · exact absurd (hlt.trans (hsorted.2.1.1 m' hafter)) (lt_irrefl m'.ns)

/-- Every registered source has a group. -/
theorem Arises.groups_pos (h : r.Arises) {ns : String} {m : SourceMeta}
    (hm : r.sources.get? ns = some m) : 0 < m.groups := by
  induction h generalizing m with
  | empty => cases hm
  | driver h name ih =>
      rw [registerDriver] at hm
      split at hm
      · exact ih hm
      · exact ih hm
  | source h model desc hr ih =>
      rw [register] at hr
      split at hr
      · cases hr
      · split at hr
        · cases hr
        next hgroups =>
          obtain rfl := Except.ok.inj hr
          rw [SortedMap.get?_insert] at hm
          split at hm
          · obtain rfl := Option.some.inj hm
            simp only [SourceMeta.ofDesc]
            cases hdesc : desc.groups with
            | none =>
                rw [Option.getD_none]
                split
                · exact Nat.one_pos
                · exact Nat.succ_pos 15
            | some n =>
                rw [hdesc] at hgroups
                exact Nat.pos_of_ne_zero fun hzero => hgroups (congrArg some hzero)
          · exact ih hm

end Registry

/-! ## The setup of this library -/

namespace Cache

/-- What a setup has opened, and the savers that it has started. -/
structure Site where
  opened : Opened
  savers : SortedMap Saver := .empty

/-- Does a deed of a setup. -/
def undertake (journal : Journal) : Deed → Site → Except Failure Unit × Site
  | .call call, site =>
    let (answer, opened) := perform journal call site.opened
    (answer, { site with opened })
  | .start ns concurrence, site =>
    (.ok (), { site with savers := site.savers.insert ns (Saver.create ns concurrence).run })

/-- A setup rolls its registry out: it succeeds or fails as the deeds do, and every source has
the saver that was started for it. -/
structure RollsOut (r : Registry) (c : Configurator) (journal : Journal) (storage : Storage) :
    Prop where
  succeeds : ∀ cache, setup r c journal storage = .ok cache → ∃ site,
    r.rollOut (undertake journal) c { opened := { storage } } = (.ok (), site) ∧
    cache.storage = site.opened.storage ∧
    ∀ m ∈ r.sources.values, ∃ source, cache.sources.get? m.ns = some source ∧
      source.info = m ∧ source.saver = site.savers.get? m.ns ∧
      (source.saver.isSome = true ↔ m.isPersisted = true ∧ c.dryRun = false)
  fails : ∀ e after, setup r c journal storage = .error (e, after) → ∃ site,
    r.rollOut (undertake journal) c { opened := { storage } } = (.error e, site)

variable {r : Registry} {c : Configurator} {journal : Journal} {storage : Storage} {plan : Plan}

theorem runCalls_undertake_calls (calls : List Call) (site : Site) :
    runCalls (undertake journal) (calls.map .call) site =
      ((runCalls (perform journal) calls site.opened).1,
        { site with opened := (runCalls (perform journal) calls site.opened).2 }) := by
  induction calls generalizing site with
  | nil => rfl
  | cons call calls ih =>
      rw [List.map_cons, runCalls, runCalls, undertake]
      cases perform journal call site.opened with
      | mk answer opened =>
          cases answer with
          | error e => rfl
          | ok u => exact ih { site with opened }

/-- The saver that is started for a stored source, by namespace. -/
def saverFor (s : SourceMeta × TableOptions) : String × Saver :=
  (s.1.ns, (Saver.create s.1.ns s.2.concurrence).run)

/-- The savers that a plan starts. -/
def startedSavers (plan : Plan) : List (String × Saver) :=
  if plan.dryRun then [] else plan.stored.map saverFor

theorem runCalls_undertake_starts (stored : List (SourceMeta × TableOptions)) (site : Site) :
    runCalls (undertake journal) (stored.map fun s => .start s.1.ns s.2.concurrence) site =
      (.ok (), ⟨site.opened,
        (stored.map saverFor).foldl (fun savers e => savers.insert e.1 e.2) site.savers⟩) := by
  induction stored generalizing site with
  | nil => rfl
  | cons s stored ih =>
      rw [List.map_cons, runCalls, undertake]
      exact ih _

/-- Where the calls of a plan succeed, its savers are started. -/
theorem runCalls_undertake_deeds (plan : Plan) (o : Opened) :
    runCalls (undertake journal) plan.deeds { opened := o } =
      match runCalls (perform journal) plan.calls o with
      | (.ok (), opened) => (.ok (), { opened, savers := .ofList (startedSavers plan) })
      | (.error e, opened) => (.error e, { opened }) := by
  rw [Plan.deeds, runCalls_append, runCalls_undertake_calls]
  cases runCalls (perform journal) plan.calls o with
  | mk answer opened =>
      cases answer with
      | error e => rfl
      | ok u =>
          rw [startedSavers]
          cases plan.dryRun with
          | true => rfl
          | false => exact runCalls_undertake_starts plan.stored { opened }

theorem exists_startSources (dryRun : Bool) (tables : SortedMap TableRef)
    {plans : List SourcePlan} (h : ∀ p ∈ plans, 0 < p.source.groups) :
    ∃ sources, startSources dryRun tables plans = .ok sources := by
  induction plans with
  | nil => exact ⟨_, rfl⟩
  | cons p plans ih =>
      obtain ⟨sources, hsources⟩ := ih fun q hq => h q (List.mem_cons_of_mem p hq)
      obtain ⟨repo, hrepo, -⟩ := Repo.exists_create (κ := Key) (υ := Nat)
        (h p List.mem_cons_self) p.source.model.volatile
      have hnew : p.source.newRepo = .ok repo := hrepo
      obtain ⟨source, hsource⟩ : ∃ source, startSource dryRun tables p = .ok source := by
        rw [startSource, hnew]
        exact ⟨_, rfl⟩
      exact ⟨sources.insert p.source.ns source, by rw [startSources, hsource, hsources]⟩

/-- The savers that are started are those of the stored sources. -/
theorem get?_startedSavers {m : SourceMeta} (hr : r.Arises)
    (hplan : Plan.ofRegistry r c = .ok plan) (hm : m ∈ r.sources.values) :
    (SortedMap.ofList (startedSavers plan)).get? m.ns =
      if plan.dryRun then none
      else (if m.isPersisted then c.tableOptions m.driver m.ns else none).map fun options =>
        (Saver.create m.ns options.concurrence).run := by
  have hlists := Plan.lists_of_registry hplan
  rw [startedSavers, SortedMap.get?_ofList]
  split
  · rfl
  · have hmem : ∀ saver, (m.ns, saver) ∈ plan.stored.map saverFor ↔
        ∃ options, m.isPersisted = true ∧ c.tableOptions m.driver m.ns = some options ∧
          (Saver.create m.ns options.concurrence).run = saver := by
      intro saver
      constructor
      · intro h
        obtain ⟨⟨m', options⟩, hs, hpair⟩ := List.mem_map.mp h
        obtain ⟨hns, rfl⟩ := Prod.mk.inj hpair
        obtain ⟨hm', hstored, hoptions⟩ := hlists.mem_stored_iff.mp hs
        obtain rfl := hr.eq_of_ns hm' hm hns
        exact ⟨options, hstored, hoptions, rfl⟩
      · rintro ⟨options, hstored, hoptions, rfl⟩
        exact List.mem_map.mpr
          ⟨(m, options), hlists.mem_stored_iff.mpr ⟨hm, hstored, hoptions⟩, rfl⟩
    apply Option.ext
    intro saver
    have hdistinct : ((plan.stored.map saverFor).reverse.map (·.1)).Nodup := by
      have hordered := (Plan.agenda_for hr hplan).ordered
      rw [List.map_reverse, List.nodup_reverse, List.map_map]
      exact hordered.imp fun hlt => String.ne_of_lt hlt
    rw [SortedMap.find?_eq_some_iff_mem hdistinct, List.mem_reverse, hmem]
    cases m.isPersisted <;> simp

/-- Every source is there, with the saver that was started for it, if it is stored. -/
theorem Built.exists_saver {final : Opened} {cache : Cache} {m : SourceMeta}
    (h : Built r c journal storage plan final cache) (hr : r.Arises)
    (hm : m ∈ r.sources.values) : ∃ source, cache.sources.get? m.ns = some source ∧
      source.info = m ∧
      source.saver = (SortedMap.ofList (startedSavers plan)).get? m.ns ∧
      (source.saver.isSome = true ↔ m.isPersisted = true ∧ c.dryRun = false) := by
  have hlists := Plan.lists_of_registry h.planned
  have hdryRun : plan.dryRun = c.dryRun := Plan.dryRun_addAll h.planned
  have hplanned : (⟨m, if m.isPersisted then c.tableOptions m.driver m.ns else none⟩ :
      SourcePlan) ∈ plan.sources := by
    rw [hlists.sources]
    exact List.mem_map_of_mem hm
  obtain ⟨source, hstart⟩ := exists_startSource h.started hplanned
  obtain ⟨hinfo, -, -, hsaver⟩ := startSource_eq_ok hstart
  refine ⟨source, ?_, hinfo, ?_, ?_⟩
  · exact (get?_startSources (h.nodup_namespaces hr) h.started).mpr ⟨_, hplanned, rfl, hstart⟩
  · rw [hsaver, get?_startedSavers hr h.planned hm]
  · rw [hsaver, hdryRun]
    cases hstored : m.isPersisted with
    | false => cases c.dryRun <;> simp
    | true =>
        obtain ⟨options, -, hoptions, -⟩ := hlists.resolved m hm hstored
        cases c.dryRun <;> simp [hoptions]

/-- A setup does the deeds of its agenda with the drivers of this library. -/
theorem rollsOut (hr : r.Arises) (c : Configurator) (journal : Journal) (storage : Storage) :
    RollsOut r c journal storage := by
  constructor
  · intro cache h
    obtain ⟨plan, final, hbuilt⟩ := exists_built h
    refine ⟨⟨final, .ofList (startedSavers plan)⟩, ?_, hbuilt.storage, ?_⟩
    · simp only [Registry.rollOut, hbuilt.planned, runCalls_undertake_deeds, hbuilt.made]
    · intro m hm
      exact hbuilt.exists_saver hr hm
  · intro e after h
    rw [setup] at h
    cases hplan : Plan.ofRegistry r c with
    | error fault =>
        simp only [hplan, Except.error.injEq, Prod.mk.injEq] at h
        obtain ⟨rfl, -⟩ := h
        exact ⟨_, by simp only [Registry.rollOut, hplan]; rfl⟩
    | ok plan =>
        simp only [hplan] at h
        cases hrun : runCalls (perform journal) plan.calls { storage } with
        | mk answer opened =>
            cases answer with
            | error fault =>
                simp only [hrun, Except.error.injEq, Prod.mk.injEq] at h
                obtain ⟨rfl, -⟩ := h
                refine ⟨{ opened }, ?_⟩
                simp only [Registry.rollOut, hplan, runCalls_undertake_deeds, hrun]
            | ok u =>
                -- Sources can always be started: each has a group.
                have hgroups : ∀ p ∈ plan.sources, 0 < p.source.groups := by
                  intro p hp
                  rw [(Plan.lists_of_registry hplan).sources] at hp
                  obtain ⟨m, hm, rfl⟩ := List.mem_map.mp hp
                  obtain ⟨e, he, rfl⟩ := List.mem_map.mp hm
                  exact hr.groups_pos (SortedMap.get?_eq_some_iff.mpr he)
                obtain ⟨sources, hsources⟩ :=
                  exists_startSources plan.dryRun opened.tables hgroups
                simp only [hrun, hsources] at h
                cases h

end Cache

/-- Nothing is done before the options of every source are resolved, and if they are not, the
error is that of the first source that has a fault.  Then the agenda is worked off, up to
the first deed that fails, and sources without storage are not on it.  The setup of this
library does so with its drivers. -/
theorem Registry.setup_phases {r : Registry} (hr : r.Arises) (c : Configurator) :
    (∀ {σ : Type} (perform : Deed → σ → Except Failure Unit × σ) (s : σ),
      ∃ answer t trail, r.rollOut perform c s = (answer, t) ∧
        r.rollOut (recording perform) c (s, []) = (answer, t, trail) ∧
        r.Unfolds c s answer t trail) ∧
    ∀ journal storage, Cache.RollsOut r c journal storage :=
  ⟨fun perform s => exists_unfolds hr c perform s, Cache.rollsOut hr c⟩

namespace Sample

/-- Drivers of which none accepts players. -/
def playerless : Deed → Unit → Except Failure Unit × Unit
  | .call (.validate driver m), _ =>
    if m.ns = "player" then (.error (.error (.validation driver m.ns "no players")), ())
    else (.ok (), ())
  | _, _ => (.ok (), ())

/-- Both drivers are initialised and heroes are accepted and extended.  Then players are not
accepted, and no store is opened. -/
theorem setup_phases_playerless :
    mixedRegistry.Arises ∧ ∃ (a : Agenda) (trail : List (Deed × Except Failure Unit)),
      a.For mixedRegistry oneDao ∧
      mixedRegistry.rollOut (recording playerless) oneDao ((), []) =
        (.error (.error (.validation "memory" "player" "no players")), (), trail) ∧
      Trail (a.deeds oneDao) (.error (.error (.validation "memory" "player" "no players")))
        trail ∧
      trail.length = 5 := by
  refine ⟨arises_mixedRegistry, ?_⟩
  obtain ⟨hany, -⟩ := Registry.setup_phases arises_mixedRegistry oneDao
  obtain ⟨answer, t, trail, -, hrecorded, hunfolds⟩ := hany playerless ()
  have hlength : (mixedRegistry.rollOut (recording playerless) oneDao ((), [])).2.2.length = 5 := by
    rfl
  have hanswer : (mixedRegistry.rollOut (recording playerless) oneDao ((), [])).1 =
      .error (.error (.validation "memory" "player" "no players")) := by
    rfl
  rw [hrecorded] at hlength hanswer
  simp only at hanswer hlength
  subst hanswer
  cases hunfolds with
  | unresolved mem fault first => cases hlength
  | @resolved a _ _ _ clear agenda idle went =>
      exact ⟨a, trail, agenda, hrecorded, went, hlength⟩

end Sample

end WriteBehind
