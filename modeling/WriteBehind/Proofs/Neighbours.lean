import WriteBehind.Proofs.OwnInstances
import WriteBehind.Proofs.TableOwners

/-!
# Sources leave one another alone

Whatever is asked of one source, every other source stays as it is: its slots and the
instances they lead to, its saver, and all instances of its records (`Cache.Confined`).
Its rows stay as well unless it shares its table; then both sources read and write the same
rows, and what one of them writes the other one finds (`Cache.neighbours_undisturbed`).
-/

namespace WriteBehind

/-! ## Operations on one source -/

namespace Scope

/-- What an operation on a source leaves as it is: other tables, and the instances of other
records. -/
structure Confined (s s' : Scope) : Prop extends Grows s s' where
  table : s'.source.table = s.source.table
  content : ∀ other, s.source.table ≠ other →
    s'.storage.content other = s.storage.content other
  instances : ∀ (id : Nat) (i : Instance), i.record.type ≠ s.type →
    (s'.instances[id]? = some i ↔ s.instances[id]? = some i)

section Confined

variable {s s' : Scope}

theorem confined_of_aside (hgrows : Grows s s')
    (haside : ∀ t other, s.type ≠ t → s.source.table ≠ other → Aside t other s s') :
    Confined s s' := by
  have hother : ∃ other, s.source.table ≠ other := by
    by_cases hnone : s.source.table = .none
    · exact ⟨.memory "", by rw [hnone]; exact TableRef.noConfusion⟩
    · exact ⟨.none, hnone⟩
  have htype : ∃ t, s.type ≠ t := by
    refine ⟨{ s.type with ns := s.type.ns.push '+' }, fun heq => ?_⟩
    have hlength := congrArg (·.ns.length) heq
    simp at hlength
  obtain ⟨other, hother⟩ := hother
  obtain ⟨t, htype⟩ := htype
  refine ⟨hgrows, (haside t other htype hother).source, ?_, ?_⟩
  · intro other hother
    exact (haside t other htype hother).content
  · intro id i hne
    exact (haside i.record.type other (Ne.symm hne) hother).instances id i rfl

theorem confined_create (s : Scope) (data : Json) (flags : CreateFlags) :
    Confined s (s.create data flags).2 :=
  confined_of_aside (grows_create s data flags) fun _ other htype _ =>
    aside_create other s htype data flags

theorem confined_get (s : Scope) (key : Key) : Confined s (s.get key).2 :=
  confined_of_aside (grows_get s key) fun _ other htype _ => aside_get other s htype key

theorem confined_getMulti (s : Scope) (keys : List Key) : Confined s (s.getMulti keys).2 :=
  confined_of_aside (grows_getMulti s keys) fun _ other htype _ =>
    aside_getMulti other s htype keys

theorem confined_find (s : Scope) (filter : Document) : Confined s (s.find filter).2 :=
  confined_of_aside (grows_find s filter) fun _ other htype _ => aside_find other s htype filter

theorem confined_save (s : Scope) {id : Nat}
    (hid : ∀ i, s.instances[id]? = some i → i.record.type = s.type) :
    Confined s (s.save id).2 :=
  confined_of_aside (grows_save s hid) fun _ _ htype hother =>
    aside_save hother fun i hi => ne_of_eq_of_ne (hid i hi) htype

theorem confined_sync (s : Scope) {id : Nat}
    (hid : ∀ i, s.instances[id]? = some i → i.record.type = s.type) :
    Confined s (s.sync id).2 :=
  confined_of_aside (grows_sync s hid) fun _ _ htype hother =>
    aside_sync hother fun i hi => ne_of_eq_of_ne (hid i hi) htype

theorem confined_expire (hs : s.Typed) (key : Key) : Confined s (s.expire key).2 := by
  refine confined_of_aside (grows_expire s key) fun _ other htype _ => ?_
  refine aside_expire other s fun id i hlive hi => ?_
  obtain ⟨i', hi', htype'⟩ := hs key id hlive
  obtain rfl := Option.some.inj (hi.symm.trans hi')
  exact ne_of_eq_of_ne htype' htype

theorem confined_syncAll (s : Scope) : Confined s s.syncAll.2 :=
  confined_of_aside (grows_syncAll s) fun t _ _ hother => aside_syncAll t hother

theorem confined_deliver (s : Scope) (n : Nat) (a : DeliveryStep) : Confined s (s.deliver n a) :=
  confined_of_aside (grows_deliver s n a) fun t _ _ hother => aside_deliver t hother n a

theorem confined_elapse (s : Scope) : Confined s s.elapse :=
  confined_of_aside (grows_elapse s) fun t _ _ hother => aside_elapse t hother

theorem confined_close (s : Scope) : Confined s s.close :=
  confined_of_aside (grows_close s) fun t _ _ hother => aside_close t hother

theorem confined_refl (s : Scope) : Confined s s :=
  confined_of_aside (.refl s) fun t other _ _ => .refl t other s

end Confined

end Scope

/-- What may be asked of one source. -/
inductive SourceCall where
  | create (data : Json) (flags : CreateFlags)
  | get (key : Key)
  | getByParts (parts : List KeyPart)
  | getMulti (keys : List Key)
  | find (filter : Document)
  /-- A record that the cache does not know. -/
  | stray (record : Record)
  | edit (id : Nat) (e : Edit)
  | save (id : Nat)
  | sync (id : Nat)
  | expire (key : Key)
  | syncAll
  /-- A worker takes a step. -/
  | deliver (n : Nat) (a : DeliveryStep)
  /-- The flush deadlines pass. -/
  | elapse
  | close

/-- The record or the instance that is named is one of the source's records. -/
def SourceCall.Fits (t : RecordType) (instances : List Instance) : SourceCall → Prop
  | .stray record => record.type = t
  | .edit id _ | .save id | .sync id => ∀ i, instances[id]? = some i → i.record.type = t
  | _ => True

namespace Cache

/-- The cache after a call for the source of a model. -/
def request (c : Cache) (model : Model) : SourceCall → Cache
  | .create data flags => (c.create model model.record.ns data flags).2
  | .get key => (c.get model key).2
  | .getByParts parts => (c.getByParts model model.record.ns parts).2
  | .getMulti keys => (c.getMulti model keys).2
  | .find filter => (c.find model filter).2
  | .stray record => (c.addStray record).2
  | .edit id e => c.edit id e
  | .save id => (c.save model id).2
  | .sync id => (c.sync model id).2
  | .expire key => (c.expire model key).2
  | .syncAll => c.onSource model.record.ns (·.syncAll.2)
  | .deliver n a => c.onSource model.record.ns (·.deliver n a)
  | .elapse => c.onSource model.record.ns Scope.elapse
  | .close => c.onSource model.record.ns Scope.close

/-- Every source serves its own namespace, and its slots lead to instances of its records. -/
def Typed (c : Cache) : Prop :=
  ∀ ns source, c.sources.get? ns = some source → source.info.ns = ns ∧ (c.scope source).Typed

/-- What a call for the source of a namespace leaves as it is: other sources and the
instances of their records, what the source is and which table it has, and all other
tables. -/
structure Confined (ns : String) (c c' : Cache) : Prop where
  others : ∀ other, other ≠ ns → c'.sources.get? other = c.sources.get? other
  own : ∀ source, c.sources.get? ns = some source → ∃ source',
    c'.sources.get? ns = some source' ∧ source'.info = source.info ∧
      source'.table = source.table
  content : ∀ source, c.sources.get? ns = some source → ∀ other, source.table ≠ other →
    c'.storage.content other = c.storage.content other
  refused : c'.storage.audited.refused = c.storage.audited.refused
  instances : ∀ (id : Nat) (i : Instance), i.record.type.ns ≠ ns →
    (c'.instances[id]? = some i ↔ c.instances[id]? = some i)
  typed : c'.Typed

section Confined

variable {c c' c'' : Cache} {ns : String} {model : Model} {source : Source} {s : Scope}

theorem Confined.refl (hc : c.Typed) (ns : String) : Confined ns c c :=
  ⟨fun _ _ => rfl, fun source hget => ⟨source, hget, rfl, rfl⟩, fun _ _ _ _ => rfl, rfl,
    fun _ _ _ => .rfl, hc⟩

theorem Confined.trans (h : Confined ns c c') (h' : Confined ns c' c'') : Confined ns c c'' := by
  refine ⟨?_, ?_, ?_, h'.refused.trans h.refused, ?_, h'.typed⟩
  · intro other hne
    exact (h'.others other hne).trans (h.others other hne)
  · intro source hget
    obtain ⟨source', hget', hinfo, htable⟩ := h.own source hget
    obtain ⟨source'', hget'', hinfo', htable'⟩ := h'.own source' hget'
    exact ⟨source'', hget'', hinfo'.trans hinfo, htable'.trans htable⟩
  · intro source hget other hne
    obtain ⟨source', hget', -, htable⟩ := h.own source hget
    exact (h'.content source' hget' other (htable ▸ hne)).trans (h.content source hget other hne)
  · intro id i hne
    exact (h'.instances id i hne).trans (h.instances id i hne)

/-- An operation on the source of a namespace. -/
theorem confined_adopt (hc : c.Typed) (hget : c.sources.get? ns = some source)
    (h : Scope.Confined (c.scope source) s) : Confined ns c (c.adopt ns s) := by
  obtain ⟨hns, htyped⟩ := hc ns source hget
  have hinstances : ∀ (id : Nat) (i : Instance), i.record.type.ns ≠ ns →
      (s.instances[id]? = some i ↔ c.instances[id]? = some i) := by
    intro id i hne
    refine h.instances id i fun htype => hne ?_
    rw [htype]
    exact hns
  refine ⟨?_, ?_, ?_, h.refused, hinstances, ?_⟩
  · intro other hne
    exact get?_adopt_of_ne c s (Ne.symm hne)
  · intro source' hget'
    obtain rfl := Option.some.inj (hget.symm.trans hget')
    exact ⟨s.source, get?_adopt_self c ns s, h.info, h.table⟩
  · intro source' hget' other hne
    obtain rfl := Option.some.inj (hget.symm.trans hget')
    exact h.content other hne
  · intro ns' source' hget'
    by_cases hne : ns = ns'
    · subst hne
      rw [get?_adopt_self, Option.some.injEq] at hget'
      subst hget'
      refine ⟨?_, h.typed htyped⟩
      rw [h.info]
      exact hns
    · rw [get?_adopt_of_ne c s hne] at hget'
      obtain ⟨hns', htyped'⟩ := hc ns' source' hget'
      refine ⟨hns', fun key id hlive => ?_⟩
      obtain ⟨i, hi, htype⟩ := htyped' key id hlive
      refine ⟨i, (hinstances id i ?_).mpr hi, htype⟩
      rw [htype]
      exact fun heq => hne (heq.symm.trans hns')

theorem confined_within {α : Type} (hc : c.Typed) {op : Scope → Except Error α × Scope}
    (hop : ∀ s : Scope, s.Typed → s.type = model.record → s.instances = c.instances →
      Scope.Confined s (op s).2) :
    Confined model.record.ns c (c.within model model.record.ns op).2 := by
  cases hsource : c.source model model.record.ns with
  | error e =>
      simp only [within, hsource]
      exact .refl hc _
  | ok source =>
      obtain ⟨hget, hmodel⟩ := source_eq_ok hsource
      simp only [within, hsource]
      exact confined_adopt hc hget
        (hop _ (hc _ source hget).2 (congrArg Model.record hmodel) rfl)

theorem confined_onSource (hc : c.Typed) {op : Scope → Scope}
    (hop : ∀ s : Scope, Scope.Confined s (op s)) (ns : String) :
    Confined ns c (c.onSource ns op) := by
  cases hget : c.sources.get? ns with
  | none =>
      simp only [onSource, hget]
      exact .refl hc ns
  | some source =>
      simp only [onSource, hget]
      exact confined_adopt hc hget (hop _)

theorem confined_edit (hc : c.Typed) {id : Nat}
    (hid : ∀ i, c.instances[id]? = some i → i.record.type.ns = ns) (e : Edit) :
    Confined ns c (c.edit id e) := by
  cases hi : c.instances[id]? with
  | none =>
      have hresult : c.edit id e = c := by simp [edit, hi]
      rw [hresult]
      exact .refl hc ns
  | some i =>
      have htype : (i.record.edit e).type = i.record.type := (i.record.edit_editsTo e).1
      have hset : ∀ source, Scope.Grows (c.scope source)
          ((c.scope source).setInstance id { i with record := i.record.edit e }) :=
        fun source => Scope.grows_setInstance _ hi htype
      rw [edit_of_some hi e]
      refine ⟨fun _ _ => rfl, fun source hget => ⟨source, hget, rfl, rfl⟩, fun _ _ _ _ => rfl, rfl,
        ?_, ?_⟩
      · intro id' x hne
        by_cases hid' : id = id'
        · subst hid'
          have hlt := (List.getElem?_eq_some_iff.mp hi).1
          rw [List.getElem?_set_self hlt, hi]
          constructor
          · intro heq
            obtain rfl := Option.some.inj heq
            exact absurd ((congrArg RecordType.ns htype).trans (hid i hi)) hne
          · intro heq
            obtain rfl := Option.some.inj heq
            exact absurd (hid _ hi) hne
        · rw [List.getElem?_set_ne hid']
      · intro ns' source hget
        obtain ⟨hns', htyped⟩ := hc ns' source hget
        exact ⟨hns', (hset source).typed htyped⟩

theorem confined_addStray (hc : c.Typed) {record : Record} (hrecord : record.type.ns = ns) :
    Confined ns c (c.addStray record).2 := by
  refine ⟨fun _ _ => rfl, fun source hget => ⟨source, hget, rfl, rfl⟩, fun _ _ _ _ => rfl, rfl,
    ?_, ?_⟩
  · intro id x hne
    have hnew : x ≠ ⟨record, []⟩ := by
      rintro rfl
      exact hne hrecord
    by_cases hlt : id < c.instances.length
    · rw [addStray, List.getElem?_append_left hlt]
    · have hle := Nat.le_of_not_lt hlt
      rw [addStray, List.getElem?_append_right hle, List.getElem?_eq_none hle]
      constructor
      · intro hget
        exact absurd (List.mem_singleton.mp (List.mem_of_getElem? hget)) hnew
      · intro hget
        cases hget
  · intro ns' source hget
    obtain ⟨hns', htyped⟩ := hc ns' source hget
    exact ⟨hns', (Scope.grows_addInstance (c.scope source) ⟨record, []⟩).typed htyped⟩

/-- A call for the source of a model. -/
theorem confined_request (hc : c.Typed) {call : SourceCall}
    (hfits : call.Fits model.record c.instances) :
    Confined model.record.ns c (c.request model call) := by
  cases call with
  | create data flags =>
      exact confined_within hc fun s _ _ _ => s.confined_create data flags
  | get key => exact confined_within hc fun s _ _ _ => s.confined_get key
  | getByParts parts =>
      refine confined_within hc fun s _ _ _ => ?_
      cases hkey : model.record.key.ofParts model.record.ns parts with
      | error e => exact s.confined_refl
      | ok key => exact s.confined_get key
  | getMulti keys => exact confined_within hc fun s _ _ _ => s.confined_getMulti keys
  | find filter => exact confined_within hc fun s _ _ _ => s.confined_find filter
  | stray record => exact confined_addStray hc (congrArg RecordType.ns hfits)
  | edit id e => exact confined_edit hc (fun i hi => congrArg RecordType.ns (hfits i hi)) e
  | save id =>
      refine confined_within hc fun s _ htype hinstances => s.confined_save ?_
      rw [htype, hinstances]
      exact hfits
  | sync id =>
      refine confined_within hc fun s _ htype hinstances => s.confined_sync ?_
      rw [htype, hinstances]
      exact hfits
  | expire key => exact confined_within hc fun s hs _ _ => Scope.confined_expire hs key
  | syncAll => exact confined_onSource hc Scope.confined_syncAll _
  | deliver n a => exact confined_onSource hc (fun s => s.confined_deliver n a) _
  | elapse => exact confined_onSource hc Scope.confined_elapse _
  | close => exact confined_onSource hc Scope.confined_close _

end Confined

/-! ## Runs -/

/-- A run of calls for the source of a model. -/
inductive Uses (model : Model) (c : Cache) : Cache → Prop
  | start : Uses model c c
  | step {c' : Cache} {call : SourceCall} (h : Uses model c c')
      (hfits : call.Fits model.record c'.instances) : Uses model c (c'.request model call)

theorem Uses.confined {c c' : Cache} {model : Model} (h : c.Uses model c') (hc : c.Typed) :
    Confined model.record.ns c c' := by
  induction h with
  | start => exact .refl hc _
  | step _ hfits ih => exact ih.trans (confined_request ih.typed hfits)

/-- A cache in use since some point: calls for any of its sources, and for all of them. -/
inductive Reached (c : Cache) : Cache → Prop
  | start : Reached c c
  | request {c' : Cache} (h : Reached c c') (model : Model) {call : SourceCall}
      (hfits : call.Fits model.record c'.instances) : Reached c (c'.request model call)
  | syncAll {c' : Cache} (h : Reached c c') : Reached c c'.syncAll.2
  | elapse {c' : Cache} (h : Reached c c') (milliseconds : Nat) :
      Reached c (c'.elapse milliseconds)
  | stop {c' : Cache} (h : Reached c c') : Reached c c'.stop

/-- What stays of all sources whatever is asked of them. -/
structure Stands (c c' : Cache) : Prop where
  sources : ∀ ns source, c.sources.get? ns = some source → ∃ source',
    c'.sources.get? ns = some source' ∧ source'.info = source.info ∧
      source'.table = source.table
  typed : c'.Typed

section Stands

variable {c c' c'' : Cache} {ns : String}

theorem Stands.refl (hc : c.Typed) : Stands c c :=
  ⟨fun _ source hget => ⟨source, hget, rfl, rfl⟩, hc⟩

theorem Stands.trans (h : Stands c c') (h' : Stands c' c'') : Stands c c'' := by
  refine ⟨fun ns source hget => ?_, h'.typed⟩
  obtain ⟨source', hget', hinfo, htable⟩ := h.sources ns source hget
  obtain ⟨source'', hget'', hinfo', htable'⟩ := h'.sources ns source' hget'
  exact ⟨source'', hget'', hinfo'.trans hinfo, htable'.trans htable⟩

theorem Confined.stands (h : Confined ns c c') : Stands c c' := by
  refine ⟨fun other source hget => ?_, h.typed⟩
  by_cases hne : other = ns
  · subst hne
    exact h.own source hget
  · exact ⟨source, (h.others other hne).trans hget, rfl, rfl⟩

/-- An operation on one source after the other. -/
theorem stands_foldl {β : Type} {f : Cache → β → Cache}
    (hf : ∀ c b, c.Typed → Stands c (f c b)) (l : List β) (hc : c.Typed) :
    Stands c (l.foldl f c) := by
  induction l generalizing c with
  | nil => exact .refl hc
  | cons b l ih => exact (hf c b hc).trans (ih (hf c b hc).typed)

theorem stands_syncNamespaces (nss : List String) (hc : c.Typed) :
    Stands c (syncNamespaces nss c).2 := by
  induction nss generalizing c with
  | nil => exact .refl hc
  | cons ns rest ih =>
      cases hget : c.sources.get? ns with
      | none =>
          simp only [syncNamespaces, hget]
          exact ih hc
      | some source =>
          have hadopt : Stands c (c.adopt ns (c.scope source).syncAll.2) :=
            (confined_adopt hc hget (Scope.confined_syncAll _)).stands
          cases hsync : (c.scope source).syncAll with
          | mk result s =>
              rw [hsync] at hadopt
              cases result with
              | error e =>
                  simp only [syncNamespaces, hget, hsync]
                  exact hadopt
              | ok u =>
                  simp only [syncNamespaces, hget, hsync]
                  exact hadopt.trans (ih hadopt.typed)

theorem stands_elapse (milliseconds : Nat) (hc : c.Typed) : Stands c (c.elapse milliseconds) := by
  refine stands_foldl (fun c e hc => ?_) c.sources.entries hc
  obtain ⟨ns, source⟩ := e
  dsimp only
  split
  · exact (confined_onSource hc Scope.confined_elapse ns).stands
  · exact .refl hc

theorem stands_stop (hc : c.Typed) : Stands c c.stop := by
  rw [stop]
  split
  · exact .refl hc
  · have hclosed := stands_foldl (f := fun c ns => c.onSource ns Scope.close)
      (fun c ns hc => (confined_onSource hc Scope.confined_close ns).stands) c.namespaces hc
    exact ⟨hclosed.sources, hclosed.typed⟩

theorem Reached.stands (h : c.Reached c') (hc : c.Typed) : Stands c c' := by
  induction h with
  | start => exact .refl hc
  | request _ model hfits ih => exact ih.trans (confined_request ih.typed hfits).stands
  | syncAll _ ih => exact ih.trans (stands_syncNamespaces _ ih.typed)
  | elapse _ milliseconds ih => exact ih.trans (stands_elapse milliseconds ih.typed)
  | stop _ ih => exact ih.trans (stands_stop ih.typed)

end Stands

/-! ## Two sources -/

section Setups

variable {r : Registry} {c : Configurator} {journal : Journal} {storage : Storage} {plan : Plan}
  {final : Opened} {start cache after : Cache} {m m' : SourceMeta}

/-- Nothing is cached yet after a setup. -/
theorem Built.typed (h : Built r c journal storage plan final start) (hr : r.Arises) :
    start.Typed := by
  intro ns source hget
  obtain ⟨p, -, hns, hstart⟩ := (get?_startSources (h.nodup_namespaces hr) h.started).mp hget
  obtain ⟨hinfo, hrepo, -, -⟩ := startSource_eq_ok hstart
  refine ⟨hinfo ▸ hns, fun key id hlive => ?_⟩
  have hnone : source.repo.get key = none := (Repo.get_of_create hrepo key).2
  rw [scope, hnone] at hlive
  cases hlive

/-- A source, its slots and all instances of its records are the same. -/
structure SameSource (m : SourceMeta) (source : Source) (c c' : Cache) : Prop where
  before : c.sources.get? m.ns = some source
  after : c'.sources.get? m.ns = some source
  instances : ∀ (id : Nat) (i : Instance), i.record.type = m.model.record →
    (c'.instances[id]? = some i ↔ c.instances[id]? = some i)
  cached : ∀ key id, source.repo.get key = some (.live id) →
    ∃ i, c.instances[id]? = some i ∧ c'.instances[id]? = some i

/-- A run of calls for one source leaves every other source as it is.  The rows of the other
source stay as well unless both have a table in common, which they do exactly if they share
it by their settings. -/
theorem neighbours_undisturbed (hr : r.Arises) (hsetup : setup r c journal storage = .ok start)
    (hreached : start.Reached cache) (hm : m ∈ r.sources.values) (hm' : m' ∈ r.sources.values)
    (hne : m.ns ≠ m'.ns) (huses : cache.Uses m.model after) :
    ∃ source source', cache.sources.get? m.ns = some source ∧
      SameSource m' source' cache after ∧
      (c.Shares r.sources.values m m' ↔ source.table = source'.table ∧ source.table ≠ .none) ∧
      (¬ c.Shares r.sources.values m m' →
        Storage.ReadsSame source'.table cache.storage after.storage) := by
  obtain ⟨plan, final, hbuilt⟩ := exists_built hsetup
  have hstands := hreached.stands (hbuilt.typed hr)
  have hconfined := huses.confined hstands.typed
  obtain ⟨_, source₀, hget₀, hstart⟩ := hbuilt.exists_source hr hm
  obtain ⟨_, source₀', hget₀', hstart'⟩ := hbuilt.exists_source hr hm'
  obtain ⟨source, hget, -, htable⟩ := hstands.sources _ _ hget₀
  obtain ⟨source', hget', hinfo', htable'⟩ := hstands.sources _ _ hget₀'
  rw [(startSource_eq_ok hstart').1] at hinfo'
  have hshares := hbuilt.shares_iff hr hm hm' hne hget₀ hget₀'
  rw [← htable, ← htable'] at hshares
  have hinstances : ∀ (id : Nat) (i : Instance), i.record.type = m'.model.record →
      (after.instances[id]? = some i ↔ cache.instances[id]? = some i) := by
    intro id i htype
    refine hconfined.instances id i fun hns => hne ?_
    rw [htype] at hns
    exact hns.symm
  refine ⟨source, source', hget, ⟨hget', ?_, hinstances, ?_⟩, hshares, ?_⟩
  · exact (hconfined.others m'.ns (Ne.symm hne)).trans hget'
  · intro key id hlive
    obtain ⟨i, hi, htype⟩ := (hstands.typed _ _ hget').2 key id hlive
    rw [Scope.type, scope, hinfo'] at htype
    exact ⟨i, hi, (hinstances id i htype).mpr hi⟩
  · intro hno
    rw [hshares] at hno
    refine Storage.readsSame_of_content ?_ hconfined.refused
    by_cases hsame : source.table = source'.table
    · -- A table in common that is not shared is none at all.
      by_cases hnone : source'.table = .none
      · rw [hnone]
        rfl
      · exact absurd ⟨hsame, hsame ▸ hnone⟩ hno
    · exact hconfined.content source hget _ hsame

end Setups

end Cache

/-! ## Heroes and players in one table -/

namespace Sample

/-- A source whose records stand in a database file, in a table named rows. -/
def rowsDesc : SourceDesc := { driver := "redb", table := "rows" }

/-- Heroes and players in tables of one name. -/
def sharedRegistry : Registry where
  sources := .ofList [("hero", .ofDesc hero rowsDesc), ("player", .ofDesc player rowsDesc)]
  drivers := [noStorage, "redb"]

theorem arises_sharedRegistry : sharedRegistry.Arises :=
  ((Registry.Arises.empty.driver "redb").source hero rowsDesc rfl).source player rowsDesc rfl

/-- The plan for heroes and players in one table. -/
def sharedPlan : Plan := (Plan.ofRegistry sharedRegistry oneDao).toOption.getD {}

/-- All calls are made. -/
def sharedOpened : Cache.Opened :=
  (runCalls (Cache.perform noJournal) (sharedPlan.calls.drop 6) (dbOpened 0)).2

/-- Heroes and players in one table. -/
def sharedCache : Cache := .ofPlan sharedPlan sharedOpened

theorem runCalls_sharedPlan :
    runCalls (Cache.perform noJournal) sharedPlan.calls { storage := {} } =
      (.ok (), sharedOpened) := by
  have hcalls : sharedPlan.calls =
      sharedPlan.calls.take 5 ++ .openDao "m" "redb" dbOptions :: sharedPlan.calls.drop 6 := rfl
  have hinited : runCalls (Cache.perform noJournal) (sharedPlan.calls.take 5) { storage := {} } =
      (.ok (), unopened 0) := by
    cbv
  have hopened : runCalls (Cache.perform noJournal) (sharedPlan.calls.drop 6) (dbOpened 0) =
      (.ok (), sharedOpened) := rfl
  rw [hcalls]
  exact runCalls_append_eq_ok.mpr
    ⟨_, hinited, runCalls_cons_eq_ok.mpr ⟨_, perform_openDao_db 0, hopened⟩⟩

theorem setup_shared : Cache.setup sharedRegistry oneDao noJournal {} = .ok sharedCache := by
  have hstarts : ∀ tables,
      (Cache.startSources false tables sharedPlan.sources).toOption.isSome = true := by
    intro tables
    cbv
  exact Cache.setup_of_made rfl runCalls_sharedPlan (hstarts sharedOpened.tables)

/-- A hero is created. -/
def withNewHero (c : Cache) : Cache := c.request hero (.create (heroOf 1 1) {})

/-- A hero is created and flushed. -/
def withHero (c : Cache) : Cache := (withNewHero c).request hero (.sync 0)

theorem uses_withHero {c : Cache}
    (htypes : (withNewHero c).instances.map (·.record.type) = [hero.record]) :
    c.Uses hero (withHero c) := by
  have hadded : c.Uses hero (withNewHero c) := .step .start trivial
  refine hadded.step fun i hi => ?_
  have htype : ((withNewHero c).instances.map (·.record.type))[0]? = some i.record.type := by
    rw [List.getElem?_map, hi]
    rfl
  rw [htypes] at htype
  exact (Option.some.inj htype).symm

/-- Players do not notice a hero in another table of their database file. -/
theorem undisturbed_mixedPlayer :
    mixedRegistry.Arises ∧ Cache.setup mixedRegistry oneDao noJournal {} = .ok mixedCache ∧
      mixedCache.Reached mixedCache ∧ mixedCache.Uses hero (withHero mixedCache) ∧
      ∃ source, Cache.SameSource mixedPlayer source mixedCache (withHero mixedCache) ∧
        Storage.ReadsSame source.table mixedCache.storage (withHero mixedCache).storage := by
  have huses : mixedCache.Uses hero (withHero mixedCache) := uses_withHero (by decide +kernel)
  refine ⟨arises_mixedRegistry, setup_mixed, .start, huses, ?_⟩
  have hhero : SourceMeta.ofDesc hero { driver := "redb", table := "heroes" } ∈
      mixedRegistry.sources.values := by
    decide
  obtain ⟨-, source, -, hsame, -, hreads⟩ := Cache.neighbours_undisturbed arises_mixedRegistry
    setup_mixed .start hhero (by decide : mixedPlayer ∈ mixedRegistry.sources.values) (by decide)
    huses
  refine ⟨source, hsame, hreads ?_⟩
  rintro ⟨-, -, hname, -⟩
  exact absurd hname (by decide)

/-- Players find a hero among their rows. -/
theorem exists_disturbed_neighbour :
    sharedRegistry.Arises ∧ Cache.setup sharedRegistry oneDao noJournal {} = .ok sharedCache ∧
      SourceMeta.ofDesc hero rowsDesc ∈ sharedRegistry.sources.values ∧
      SourceMeta.ofDesc player rowsDesc ∈ sharedRegistry.sources.values ∧
      sharedCache.Uses hero (withHero sharedCache) ∧
      ∃ source, sharedCache.sources.get? "player" = some source ∧
        ¬ Storage.ReadsSame source.table sharedCache.storage (withHero sharedCache).storage := by
  refine ⟨arises_sharedRegistry, setup_shared, by decide, by decide,
    uses_withHero (by decide +kernel), ?_⟩
  have htable : (sharedCache.sources.get? "player").map (·.table) =
      some (.file "/work/db" "rows") := by
    decide +kernel
  obtain ⟨source, hsource, htable⟩ := Option.map_eq_some_iff.mp htable
  refine ⟨source, hsource, fun hsame => ?_⟩
  rw [htable] at hsame
  have hfound := congrArg (fun found => found.toOption.map (·.pending.length)) (hsame.find .empty)
  exact absurd hfound (by decide +kernel)

end Sample

end WriteBehind
