import WriteBehind.Proofs.Fetches
import WriteBehind.Proofs.StoredRecords

/-!
# Requests to a cache and its sources

A `Request` is anything that can be asked of a cache in use.  `Cache.Hosts` says that the
source of some records is there, that it is in a state of interest, and that no other source
shares its table.  Requests for other models and operations on other sources leave the state
of the source alone, so what is to be shown of a cache comes down to the operations on one
source.
-/

namespace WriteBehind

/-! ## Fetches of other sources -/

namespace Scope

variable {t : RecordType} {table : TableRef} {s s' : Scope}

/-- A table that is none has nothing to be seen of it. -/
theorem Aside.of_apart (hapart : s.source.table ≠ table ∨ table = .none)
    (h : ∀ other, s.source.table ≠ other → Aside t other s s') : Aside t table s s' := by
  rcases hapart with hne | rfl
  · exact h table hne
  · have hother : ∃ other, s.source.table ≠ other := by
      by_cases hnone : s.source.table = .none
      · exact ⟨.memory "", by rw [hnone]; exact TableRef.noConfusion⟩
      · exact ⟨.none, hnone⟩
    obtain ⟨other, hne⟩ := hother
    exact ⟨(h other hne).source, rfl, (h other hne).instances⟩

theorem aside_publishRows (table : TableRef) (s : Scope) (htype : s.type ≠ t)
    (rows : List Json) : Aside t table s (s.publishRows rows).2 := by
  induction rows generalizing s with
  | nil => exact .refl t table s
  | cons data rows ih =>
      have hinfo := (publish_frame s (s.type.keyOf data) (some data)).1
      have htype' : (s.publish (s.type.keyOf data) (some data)).2.type ≠ t :=
        ne_of_eq_of_ne (congrArg (·.model.record) hinfo) htype
      exact (aside_publish table s htype _ _).trans (ih _ htype')

theorem aside_publishMissing (table : TableRef) (s : Scope) (htype : s.type ≠ t)
    (keys : List Key) : Aside t table s (s.publishMissing keys) := by
  induction keys generalizing s with
  | nil => exact .refl t table s
  | cons key keys ih =>
      have hinfo := (publish_frame s key none).1
      have htype' : (s.publish key none).2.type ≠ t :=
        ne_of_eq_of_ne (congrArg (·.model.record) hinfo) htype
      exact (aside_publish table s htype key none).trans (ih _ htype')

theorem aside_find (table : TableRef) (s : Scope) (htype : s.type ≠ t) (filter : Document) :
    Aside t table s (s.find filter).2 := by
  have hsearched : Aside t table s (s.searched filter) :=
    aside_source t s rfl (Storage.content_read s.source.table table _ _ s.storage)
  simp only [find]
  split
  · exact hsearched
  · exact hsearched.trans (aside_publishRows table (s.searched filter) htype _)

theorem aside_getMulti (table : TableRef) (s : Scope) (htype : s.type ≠ t) (keys : List Key) :
    Aside t table s (s.getMulti keys).2 := by
  have hfetched : ∀ keys, Aside t table s (s.fetchedMulti keys) := fun keys =>
    aside_source t s rfl (Storage.content_read s.source.table table _ _ s.storage)
  simp only [getMulti]
  split
  · exact .refl t table s
  · split
    · exact hfetched _
    next rows hrows =>
      have hpublished := aside_publishRows table (s.fetchedMulti (s.source.repo.getMulti keys).2)
        htype rows
      have htype' : ((s.fetchedMulti (s.source.repo.getMulti keys).2).publishRows rows).2.type ≠
          t := by
        have hinfo : ∀ (rows : List Json) (x : Scope),
            (x.publishRows rows).2.source.info = x.source.info := by
          intro rows
          induction rows with
          | nil => exact fun _ => rfl
          | cons data rows ih =>
              intro x
              exact (ih _).trans (publish_frame x _ _).1
        exact ne_of_eq_of_ne (congrArg (·.model.record) (hinfo rows _)) htype
      exact ((hfetched _).trans hpublished).trans (aside_publishMissing table _ htype' _)

theorem aside_expire (table : TableRef) (s : Scope) {key : Key}
    (htype : ∀ id i, s.source.repo.get key = some (.live id) → s.instances[id]? = some i →
      i.record.type ≠ t) : Aside t table s (s.expire key).2 := by
  have hrepo := aside_setRepo t table s (s.source.repo.expire key).2
  cases hcached : (s.source.repo.expire key).1 with
  | none =>
      simp only [expire, hcached]
      exact hrepo
  | some id =>
      simp only [expire, hcached]
      cases hi : (s.setRepo (s.source.repo.expire key).2).instances[id]? with
      | none => exact hrepo
      | some i =>
          have hlive : s.source.repo.get key = some (.live id) := by
            have hexpired : (s.source.repo.get key).bind (·.live?) = some id := hcached
            obtain ⟨slot, hget, hslot⟩ := Option.bind_eq_some_iff.mp hexpired
            cases slot with
            | live id' => rw [hget, Option.some.inj hslot]
            | missing => cases hslot
          have hne := htype id i hlive hi
          exact hrepo.trans (aside_setInstance table _ hi hne hne)

/-- Nothing that is said of a scope depends on other tables or on the instances of other
types. -/
def Ignores (p : Deposit) (I : Scope → Prop) : Prop :=
  ∀ (s : Scope) (instances : List Instance) (storage : Storage), I s →
    storage.content p.table = s.storage.content p.table →
    (∀ (id : Nat) (i : Instance), i.record.type = p.type →
      (instances[id]? = some i ↔ s.instances[id]? = some i)) →
    I ⟨s.source, instances, storage⟩

end Scope

/-! ## Requests -/

/-- What may be asked of a cache in use. -/
inductive Request where
  | act (a : Act)
  | getMulti (model : Model) (keys : List Key)
  | find (model : Model) (filter : Document)
  | expire (model : Model) (key : Key)

namespace Cache

/-- The cache after a request. -/
def serve (c : Cache) : Request → Cache
  | .act a => c.act a
  | .getMulti model keys => (c.getMulti model keys).2
  | .find model filter => (c.find model filter).2
  | .expire model key => (c.expire model key).2

/-- The source of the records is there, and no other source shares its table. -/
structure Hosts (p : Deposit) (I : Scope → Prop) (c : Cache) : Prop where
  found : ∃ own, c.sources.get? p.ns = some own ∧ I (c.scope own)
  apart : ∀ ns source, ns ≠ p.ns → c.sources.get? ns = some source →
    source.table ≠ p.table ∨ p.table = .none

section Hosts

variable {p : Deposit} {I I' : Scope → Prop} {c : Cache} {ns : String} {source : Source}
  {s : Scope}

theorem Hosts.mono (h : c.Hosts p I) (hI : ∀ s, I s → I' s) : c.Hosts p I' := by
  obtain ⟨own, hfound, hown⟩ := h.found
  exact ⟨⟨own, hfound, hI _ hown⟩, h.apart⟩

theorem Hosts.own (h : c.Hosts p I) (hget : c.sources.get? p.ns = some source) :
    I (c.scope source) := by
  obtain ⟨own, hfound, hown⟩ := h.found
  rw [hfound, Option.some.injEq] at hget
  exact hget ▸ hown

/-- An operation on the source of the records. -/
theorem Hosts.adopt_own (h : c.Hosts p I) (hs : I' s) : (c.adopt p.ns s).Hosts p I' := by
  refine ⟨⟨s.source, get?_adopt_self c p.ns s, hs⟩, ?_⟩
  intro ns source hns hget
  rw [get?_adopt_of_ne c s (Ne.symm hns)] at hget
  exact h.apart ns source hns hget

/-- An operation on another source. -/
theorem Hosts.adopt_other (h : c.Hosts p I) (hI : Scope.Ignores p I) (hns : ns ≠ p.ns)
    (hget : c.sources.get? ns = some source)
    (haside : Scope.Aside p.type p.table (c.scope source) s) : (c.adopt ns s).Hosts p I := by
  obtain ⟨own, hfound, hown⟩ := h.found
  refine ⟨⟨own, ?_, ?_⟩, ?_⟩
  · rw [get?_adopt_of_ne c s hns]
    exact hfound
  · exact hI (c.scope own) s.instances s.storage hown haside.content haside.instances
  · intro ns' source' hne hget'
    by_cases hns' : ns = ns'
    · subst hns'
      rw [get?_adopt_self, Option.some.injEq] at hget'
      rw [← hget', haside.source]
      exact h.apart ns source hns hget
    · rw [get?_adopt_of_ne c s hns'] at hget'
      exact h.apart ns' source' hne hget'

/-- A request for the records goes to their source. -/
theorem Hosts.within_own (h : c.Hosts p I) (hmodel : ∀ s, I s → s.source.info.model = p.model) :
    ∃ own, c.sources.get? p.ns = some own ∧ I (c.scope own) ∧
      ∀ {α : Type} (op : Scope → Except Error α × Scope), c.within p.model p.ns op =
        ((op (c.scope own)).1.mapError .error, c.adopt p.ns (op (c.scope own)).2) := by
  obtain ⟨own, hfound, hown⟩ := h.found
  refine ⟨own, hfound, hown, fun op => ?_⟩
  have hsource : c.source p.model p.ns = .ok own := by
    have hinfo : own.info.model = p.model := hmodel _ hown
    simp only [Cache.source, hfound, hinfo, if_true]
  simp only [Cache.within, hsource]

/-- A request for another model leaves the records alone. -/
theorem Hosts.within_other {α : Type} (h : c.Hosts p I) (hI : Scope.Ignores p I)
    (hmodel : ∀ s, I s → s.source.info.model = p.model) {model : Model} (hne : model ≠ p.model)
    (op : Scope → Except Error α × Scope)
    (haside : ∀ s : Scope, s.source.table ≠ p.table ∨ p.table = .none →
      model.record ≠ p.type → s.type = model.record → s.instances = c.instances →
      c.sources.get? model.record.ns = some s.source →
        Scope.Aside p.type p.table s (op s).2) :
    (c.within model model.record.ns op).2.Hosts p I := by
  cases hsource : c.source model model.record.ns with
  | error e =>
      simp only [Cache.within, hsource]
      exact h
  | ok source =>
      obtain ⟨hget, hinfo⟩ := source_eq_ok hsource
      have hns : model.record.ns ≠ p.ns := by
        intro heq
        rw [heq] at hget
        exact hne (hinfo.symm.trans (hmodel _ (h.own hget)))
      simp only [Cache.within, hsource]
      refine h.adopt_other hI hns hget ?_
      refine haside (c.scope source) (h.apart _ source hns hget) ?_ (congrArg Model.record hinfo)
        rfl hget
      intro heq
      exact hns (congrArg RecordType.ns heq)

/-- An operation on the source of a namespace, whichever it is. -/
theorem Hosts.onSource (h : c.Hosts p I) (hI : Scope.Ignores p I) {op : Scope → Scope}
    (hown : ∀ s, I s → I (op s))
    (haside : ∀ s : Scope, s.source.table ≠ p.table ∨ p.table = .none →
      Scope.Aside p.type p.table s (op s)) (ns : String) : (c.onSource ns op).Hosts p I := by
  cases hget : c.sources.get? ns with
  | none =>
      simp only [Cache.onSource, hget]
      exact h
  | some source =>
      simp only [Cache.onSource, hget]
      by_cases hns : ns = p.ns
      · subst hns
        exact h.adopt_own (hown _ (h.own hget))
      · exact h.adopt_other hI hns hget (haside _ (h.apart ns source hns hget))

theorem Hosts.syncNamespaces (h : c.Hosts p I) (hI : Scope.Ignores p I)
    (hown : ∀ s, I s → I s.syncAll.2) (nss : List String) :
    (syncNamespaces nss c).2.Hosts p I := by
  induction nss generalizing c with
  | nil => exact h
  | cons ns rest ih =>
      cases hget : c.sources.get? ns with
      | none =>
          simp only [Cache.syncNamespaces, hget]
          exact ih h
      | some source =>
          have hadopt : (c.adopt ns (c.scope source).syncAll.2).Hosts p I := by
            by_cases hns : ns = p.ns
            · subst hns
              exact h.adopt_own (hown _ (h.own hget))
            · refine h.adopt_other hI hns hget (.of_apart (h.apart ns source hns hget) ?_)
              exact fun other hother => Scope.aside_syncAll p.type hother
          cases hsync : (c.scope source).syncAll with
          | mk result s =>
              rw [hsync] at hadopt
              cases result with
              | error e =>
                  simp only [Cache.syncNamespaces, hget, hsync]
                  exact hadopt
              | ok u =>
                  simp only [Cache.syncNamespaces, hget, hsync]
                  exact ih hadopt

theorem Hosts.deliver (h : c.Hosts p I) (hI : Scope.Ignores p I)
    (hown : ∀ s n a, I s → I (s.deliver n a)) (ns : String) (n : Nat) (a : DeliveryStep) :
    (c.onSource ns (·.deliver n a)).Hosts p I :=
  h.onSource hI (fun s => hown s n a)
    (fun _ hapart => .of_apart hapart fun _ hother => Scope.aside_deliver p.type hother n a) ns

theorem Hosts.stop (h : c.Hosts p I) (hI : Scope.Ignores p I)
    (hown : ∀ s, I s → I s.close) : c.stop.Hosts p I := by
  have hclosed : ∀ nss : List String, (nss.foldl (fun c ns => c.onSource ns Scope.close) c).Hosts p I := by
    intro nss
    induction nss generalizing c with
    | nil => exact h
    | cons ns rest ih =>
        refine ih (h.onSource hI hown ?_ ns)
        exact fun s hapart => .of_apart hapart fun _ hother => Scope.aside_close p.type hother
  rw [Cache.stop]
  split
  · exact h
  · obtain ⟨own, hfound, hown'⟩ := (hclosed c.namespaces).found
    exact ⟨⟨own, hfound, hown'⟩, (hclosed c.namespaces).apart⟩

/-- An instance of the records is edited, or one of another type. -/
theorem Hosts.edit (h : c.Hosts p I) (hI : Scope.Ignores p I) {id : Nat} {e : Edit}
    (hown : ∀ (s : Scope) i, I s → s.instances = c.instances → c.instances[id]? = some i →
      i.record.type = p.type →
        I { s with instances := s.instances.set id { i with record := i.record.edit e } }) :
    (c.edit id e).Hosts p I := by
  obtain ⟨own, hfound, hI'⟩ := h.found
  cases hi : c.instances[id]? with
  | none =>
      have hresult : c.edit id e = c := by simp [Cache.edit, hi]
      rw [hresult]
      exact h
  | some i =>
      rw [edit_of_some hi e]
      refine ⟨⟨own, hfound, ?_⟩, h.apart⟩
      by_cases htype : i.record.type = p.type
      · exact hown (c.scope own) i hI' rfl hi htype
      · have hne : (i.record.edit e).type ≠ p.type := by
          rw [(i.record.edit_editsTo e).1]
          exact htype
        have haside : Scope.Aside p.type p.table (c.scope own)
            ((c.scope own).setInstance id { i with record := i.record.edit e }) :=
          Scope.aside_setInstance p.table (c.scope own) hi htype hne
        exact hI (c.scope own) _ _ hI' haside.content haside.instances

end Hosts

end Cache

/-! ## What a request gives -/

theorem toOption_mapError {α ε ε' : Type} (f : ε → ε') (result : Except ε α) :
    (result.mapError f).toOption = result.toOption := by
  cases result <;> rfl

theorem mapError_eq_ok_iff {α ε ε' : Type} {f : ε → ε'} {result : Except ε α} {a : α} :
    result.mapError f = .ok a ↔ result = .ok a := by
  cases result <;> simp [Except.mapError]

namespace Cache

/-- The ones of some instances that have a key. -/
def ofKey (c : Cache) (key : Key) (ids : List Nat) : List Nat :=
  ids.filter fun id => (c.instances[id]?).any fun i => decide (i.record.key = key)

end Cache

namespace Request

variable (p : Deposit) (c : Cache)

/-- The handles of a key that a request for the records hands out. -/
def hands (key : Key) : Request → List Nat
  | .act (.create model data tmp) =>
    if model = p.model ∧ p.type.keyOf data = key then
      (c.create model model.record.ns data { tmp }).1.toOption.toList
    else []
  | .act (.get model key') =>
    if model = p.model ∧ key' = key then (c.get model key').1.toOption.join.toList else []
  | .getMulti model keys =>
    if model = p.model then
      (c.getMulti model keys).2.ofKey key ((c.getMulti model keys).1.toOption.getD [])
    else []
  | .find model filter =>
    if model = p.model then
      (c.find model filter).2.ofKey key ((c.find model filter).1.toOption.getD [])
    else []
  | _ => []

/-- Whether a request creates a record under a key. -/
def creates (key : Key) : Request → Bool
  | .act (.create model data tmp) =>
    decide (model = p.model ∧ p.type.keyOf data = key) &&
      (c.create model model.record.ns data { tmp }).1.toOption.isSome
  | _ => false

end Request

/-! ## The start -/

/-- A cache whose source of the records has just been started.  No other source shares its
table, if it has one, which refuses nothing and whose rows can be read and are kept under
their keys. -/
structure Start (p : Deposit) (c : Cache) : Prop where
  started : ∃ dryRun plan tables source, Cache.startSource dryRun tables plan = .ok source ∧
    plan.source.model = p.model ∧ source.table = p.table ∧ c.sources.get? p.ns = some source
  apart : ∀ ns source, ns ≠ p.ns → c.sources.get? ns = some source →
    source.table ≠ p.table ∨ p.table = .none
  fresh : c.instances = []
  ready : p.table ≠ .none → Storage.Ready p.table c.storage
  written : ∀ text row, (c.storage.rows p.table).get? text = some row →
    ∃ data, p.type.read (.ofDocument row) = .ok data ∧ p.inUse (p.type.keyOf data) ∧
      (p.type.keyOf data).text = text

section Starts

variable {p : Deposit} {c : Cache}

/-- The row of a key can be read. -/
theorem Start.reads (h : Start p c) (key : Key) : p.Reads c.storage key := by
  intro row hrow
  obtain ⟨data, hread, -⟩ := h.written key.text row hrow
  exact ⟨data, hread⟩

/-- Nothing is cached and nothing is on its way when a source has just been started. -/
theorem Start.source (h : Start p c) :
    ∃ source, c.sources.get? p.ns = some source ∧
      source.repo.volatile = p.model.volatile ∧ (∀ key, source.repo.get key = none) ∧
      ∀ ht, (c.scope source).Shelves p ht p.inUse c.storage := by
  obtain ⟨dryRun, plan, tables, source, hstart, hmodel, htable, hfound⟩ := h.started
  obtain ⟨hinfo, hrepo, -, hsaver⟩ := startSource_eq_ok hstart
  refine ⟨source, hfound, ?_, fun key => (Repo.get_of_create hrepo key).2, fun ht => ?_⟩
  · rw [(Repo.get_of_create hrepo ⟨.int 0, []⟩).1, hmodel]
  · refine ⟨?_, htable, ?_, ?_⟩
    · rw [← hmodel, ← hinfo]
      rfl
    · intro w hw
      have hstarted : w = ({} : Worker).start := by
        simp only [Scope.ledger, Cache.scope, hsaver] at hw
        split at hw
        · cases hw
        · cases hoptions : plan.options with
          | none =>
              rw [hoptions] at hw
              cases hw
          | some options =>
              rw [hoptions] at hw
              exact (workers_run plan.source.ns options.concurrence).2 w hw
      rw [hstarted]
      exact Worker.hauls_start _
    · intro hsome
      refine ⟨h.ready hsome, ?_, fun _ _ => rfl⟩
      intro text row hrow
      obtain ⟨data, hread, hused, htext⟩ := h.written text row hrow
      rw [RecordType.keyOf_of_read hread] at hused htext
      exact ⟨hused, htext⟩

end Starts

end WriteBehind
