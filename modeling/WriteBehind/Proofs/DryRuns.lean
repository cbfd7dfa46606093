import WriteBehind.Proofs.PinnedKeys

/-!
# Dry runs

`Cache.dry` is a cache without savers above another storage.  A live run drifts away from the
rows that it started with, and a dry run does not, so the two are not compared by their rows:
what they have in common is that every source of the live one remembers all that it was asked
for (`Cache.Moored`).  Every operation keeps this, and asked of `Cache.dry` it gives the same
answer and leaves `Cache.dry` of what it leaves (`Cache.Moored.operate`).  What the workers do
in between is not to be seen there (`Cache.onSource_dry`).

Rows are looked up by the text of a key and cached under that key, while a commitment goes by
the key of the data.  Both must be the same, or a source may write to the row of a key that it
was not asked for (`Deposit.Filed`).
-/

namespace WriteBehind

/-- Whether a consumer looks for a batch that is due. -/
def Consumer.isWaiting : Consumer → Bool
  | .waiting => true
  | _ => false

theorem isWaiting_iff {c : Consumer} : c.isWaiting = true ↔ c = .waiting := by
  cases c <;> simp [Consumer.isWaiting]

namespace SortedMap

variable {β γ : Type}

theorem map_insert (f : β → γ) (m : SortedMap β) (key : String) (value : β) :
    (m.insert key value).map f = (m.map f).insert key (f value) := by
  refine ext_get? fun k => ?_
  simp only [get?_map, get?_insert]
  split <;> rfl

theorem keys_map (f : β → γ) (m : SortedMap β) : (m.map f).keys = m.keys := by
  simp [keys, map]

end SortedMap

/-! ## Calls of the facade -/

/-- What may be asked of a cache that is run dry. -/
inductive Operation where
  | create (model : Model) (data : Json) (tmp : Bool)
  | get (model : Model) (key : Key)
  | getMulti (model : Model) (keys : List Key)
  | edit (id : Nat) (e : Edit)
  | save (model : Model) (id : Nat)
  | sync (model : Model) (id : Nat)
  | syncAll

/-- What comes of it. -/
inductive Answer where
  | created (result : Except Failure Nat)
  | found (result : Except Failure (Option Nat))
  | listed (result : Except Failure (List Nat))
  | edited (result : Except Failure Bool)
  | saved (result : Except Failure Bool)
  | synced (result : Except Failure Unit)
  | flushed (result : Except Error Unit)

namespace Cache

/-- The answer to an operation and the cache after it. -/
def operate (c : Cache) : Operation → Answer × Cache
  | .create model data tmp => (c.create model model.record.ns data { tmp }).map .created id
  | .get model key => (c.get model key).map .found id
  | .getMulti model keys => (c.getMulti model keys).map .listed id
  | .edit n e =>
    (.edited ((c.instances[n]?.map (·.record.reply e)).getD (.ok false)), c.edit n e)
  | .save model n => (c.save model n).map .saved id
  | .sync model n => (c.sync model n).map .synced id
  | .syncAll => c.syncAll.map .flushed id

/-- A cache after several operations. -/
def operateAll (c : Cache) : List Operation → Cache
  | [] => c
  | op :: ops => (c.operate op).2.operateAll ops

/-- A cache that writes nothing, with instances that have no place in a batch, above another
storage. -/
def dry (c : Cache) (storage : Storage) : Cache where
  sources := c.sources.map Source.dry
  instances := c.instances.map Instance.unplaced
  storage
  dryRun := true
  stopped := c.stopped

section Dry

variable {c : Cache} {storage : Storage} {model : Model} {ns : String}

theorem source_dry (c : Cache) (storage : Storage) (model : Model) (ns : String) :
    (c.dry storage).source model ns = (c.source model ns).map Source.dry := by
  cases hget : c.sources.get? ns with
  | none => simp only [source, dry, SortedMap.get?_map, hget]; rfl
  | some source =>
      have hinfo : source.dry.info = source.info := rfl
      simp only [Cache.source, dry, SortedMap.get?_map, hget, Option.map_some, hinfo]
      split <;> rfl

theorem adopt_dry (c : Cache) (s : Scope) (storage storage' : Storage) (ns : String) :
    (c.dry storage).adopt ns (s.dry storage') = (c.adopt ns s).dry storage' := by
  simp only [adopt, dry, Scope.dry, SortedMap.map_insert]

/-- What the workers do is not to be seen. -/
theorem onSource_dry {op : Scope → Scope} (hop : ∀ s : Scope, (op s).dry storage = s.dry storage)
    (c : Cache) (ns : String) : (c.onSource ns op).dry storage = c.dry storage := by
  cases hget : c.sources.get? ns with
  | none => simp only [onSource, hget]
  | some source =>
      have hown : c.adopt ns (c.scope source) = c := by
        have hsources : c.sources.insert ns source = c.sources := by
          refine SortedMap.ext_get? fun k => ?_
          rw [SortedMap.get?_insert]
          split
          next hk => rw [← hk, hget]
          · rfl
        simp only [adopt, scope, hsources]
      simp only [onSource, hget]
      rw [← adopt_dry c _ storage storage, hop, adopt_dry, hown]

theorem within_dry {α : Type} {op : Scope → Except Error α × Scope}
    (hop : ∀ source, c.source model ns = .ok source → Scope.Repeats op (c.scope source) storage) :
    ∃ storage', storage.SameRows storage' ∧ (c.dry storage).within model ns op =
      ((c.within model ns op).1, (c.within model ns op).2.dry storage') := by
  have hsource := source_dry c storage model ns
  cases hget : c.source model ns with
  | error e =>
      rw [hget] at hsource
      refine ⟨storage, .refl storage, ?_⟩
      simp only [within, hget, hsource]
      rfl
  | ok source =>
      rw [hget] at hsource
      obtain ⟨storage', hsame, hrepeats⟩ := hop source hget
      refine ⟨storage', hsame, ?_⟩
      have hscope : (c.dry storage).scope source.dry = (c.scope source).dry storage := rfl
      simp only [within, hget, hsource, Except.map, hscope, hrepeats, adopt_dry]

end Dry

end Cache

/-! ## What the two runs have in common -/

/-- The records of a source. -/
def Source.deposit (inUse : Model → Key → Prop) (source : Source) : Deposit where
  model := source.info.model
  table := source.table
  inUse := inUse source.info.model

namespace Cache

/-- A cache in use on rows that it started with: each source remembers what it was asked for,
and no two of them have a table in common. -/
structure Moored (inUse : Model → Key → Prop) (before : Storage) (c : Cache) : Prop where
  keyed : ∀ ns source, c.sources.get? ns = some source → source.info.ns = ns
  pins : ∀ ns source, c.sources.get? ns = some source →
    (c.scope source).Pins (source.deposit inUse) before ∧ (source.deposit inUse).Filed before
  apart : ∀ ns ns' source source', ns ≠ ns' → c.sources.get? ns = some source →
    c.sources.get? ns' = some source' → source.table ≠ source'.table ∨ source'.table = .none
  refused : c.storage.audited.refused = before.audited.refused

section Moored

variable {inUse : Model → Key → Prop} {before storage : Storage} {c : Cache} {ns : String}
  {source : Source} {s : Scope}

/-- An operation on one source. -/
theorem Moored.adopt (h : c.Moored inUse before) (hget : c.sources.get? ns = some source)
    (hs : s.Pins (source.deposit inUse) before) (hconfined : Scope.Confined (c.scope source) s) :
    (c.adopt ns s).Moored inUse before := by
  have hdeposit : s.source.deposit inUse = source.deposit inUse := by
    rw [Source.deposit, hconfined.info, hconfined.table]
    rfl
  have hsources : ∀ ns' source', (c.adopt ns s).sources.get? ns' = some source' →
      ns' = ns ∧ source' = s.source ∨ ns' ≠ ns ∧ c.sources.get? ns' = some source' := by
    intro ns' source' hget'
    by_cases hne : ns = ns'
    · subst hne
      rw [get?_adopt_self] at hget'
      exact .inl ⟨rfl, (Option.some.inj hget').symm⟩
    · rw [get?_adopt_of_ne c s hne] at hget'
      exact .inr ⟨Ne.symm hne, hget'⟩
  refine ⟨?_, ?_, ?_, hconfined.refused.trans h.refused⟩
  · intro ns' source' hget'
    rcases hsources ns' source' hget' with ⟨rfl, rfl⟩ | ⟨-, hget'⟩
    · rw [hconfined.info]
      exact h.keyed _ source hget
    · exact h.keyed ns' source' hget'
  · intro ns' source' hget'
    rcases hsources ns' source' hget' with ⟨rfl, rfl⟩ | ⟨hne, hget'⟩
    · rw [hdeposit]
      exact ⟨hs, (h.pins _ source hget).2⟩
    · -- Another source: neither its table nor the instances of its records have changed.
      obtain ⟨hpins, hfiled⟩ := h.pins ns' source' hget'
      refine ⟨hpins.aside ?_ fun id i htype => hconfined.instances id i ?_, hfiled⟩
      · rcases h.apart ns ns' source source' (Ne.symm hne) hget hget' with happart | hnone
        · exact hconfined.content _ happart
        · have hnone' : (source'.deposit inUse).table = .none := hnone
          rw [hnone']
          rfl
      · intro htype'
        have htypes : source'.info.model.record = source.info.model.record :=
          htype.symm.trans htype'
        have hns : source'.info.ns = source.info.ns := congrArg RecordType.ns htypes
        rw [h.keyed ns' source' hget', h.keyed ns source hget] at hns
        exact hne hns
  · intro ns₁ ns₂ source₁ source₂ hne hget₁ hget₂
    have htables : ∀ ns' source', (c.adopt ns s).sources.get? ns' = some source' →
        ∃ old, c.sources.get? ns' = some old ∧ source'.table = old.table := by
      intro ns' source' hget'
      rcases hsources ns' source' hget' with ⟨rfl, rfl⟩ | ⟨-, hget'⟩
      · exact ⟨source, hget, hconfined.table⟩
      · exact ⟨source', hget', rfl⟩
    obtain ⟨old₁, hold₁, htable₁⟩ := htables ns₁ source₁ hget₁
    obtain ⟨old₂, hold₂, htable₂⟩ := htables ns₂ source₂ hget₂
    rw [htable₁, htable₂]
    exact h.apart ns₁ ns₂ old₁ old₂ hne hold₁ hold₂

/-- The rows that a source may still look at are the same in any storage that has kept the
rows from the start. -/
theorem Moored.reflects (h : c.Moored inUse before) (hsame : before.SameRows storage)
    (hget : c.sources.get? ns = some source) :
    (c.scope source).Reflects (inUse source.info.model) storage := by
  refine ⟨hsame.refused.trans h.refused.symm, fun key hused hnone => ?_⟩
  have hrow := (h.pins ns source hget).1.row_same ⟨hused, hnone⟩
  have htable : (c.scope source).source.table = (source.deposit inUse).table := rfl
  rw [hsame.rows, htable]
  exact hrow.symm

/-- What may be asked of a cache in use: records are created and fetched under keys in use and
keep their keys, instances are saved to their own sources, and whoever waits for a flush
finds no batch in the hands of the consumers.  (One that is there is finished first.) -/
def Admits (inUse : Model → Key → Prop) (c : Cache) : Operation → Prop
  | .create model data _ => inUse model (model.record.keyOf data)
  | .get model key => inUse model key
  | .getMulti model keys => ∀ key ∈ keys, inUse model key
  | .edit id e => ∀ i, c.instances[id]? = some i → (i.record.edit e).key = i.record.key
  | .save model id => ∀ i, c.instances[id]? = some i → i.record.type = model.record
  | .sync model id => ∀ i, c.instances[id]? = some i → i.record.type = model.record ∧
      ∀ source, c.sources.get? model.record.ns = some source →
        (c.scope source).Rests (some i.record.key.hash)
  | .syncAll => ∀ ns source, c.sources.get? ns = some source → (c.scope source).Rests none

/-- Operations that may be asked one after the other. -/
def AdmitsAll (inUse : Model → Key → Prop) (c : Cache) : List Operation → Prop
  | [] => True
  | op :: ops => c.Admits inUse op ∧ (c.operate op).2.AdmitsAll inUse ops

theorem admits_edit {id : Nat} {e : Edit}
    (hkey : (c.instances[id]?).all (fun i => decide ((i.record.edit e).key = i.record.key)) =
      true) : c.Admits inUse (.edit id e) := by
  intro i hi
  rw [hi, Option.all_some, decide_eq_true_eq] at hkey
  exact hkey

theorem admits_save {model : Model} {id : Nat}
    (htype : (c.instances[id]?).all (fun i => decide (i.record.type = model.record)) = true) :
    c.Admits inUse (.save model id) := by
  intro i hi
  rw [hi, Option.all_some, decide_eq_true_eq] at htype
  exact htype

theorem admits_syncAll (hwaiting : (c.sources.entries.all fun e =>
    e.2.saver.all fun saver => saver.workers.all fun w => w.consumer.isWaiting) = true) :
    c.Admits inUse .syncAll := by
  intro ns source hget saver hsaver w hw
  have hsource := List.all_eq_true.mp hwaiting _ (SortedMap.get?_eq_some_iff.mp hget)
  replace hsaver : source.saver = some saver := hsaver
  rw [hsaver, Option.all_some] at hsource
  exact isWaiting_iff.mp (List.all_eq_true.mp hsource w hw)

/-- What one operation keeps, and that without savers it does the same. -/
def Agrees (inUse : Model → Key → Prop) (before storage : Storage) (c : Cache) {α : Type}
    (op : Cache → α × Cache) : Prop :=
  (op c).2.Moored inUse before ∧
    ∃ storage', storage.SameRows storage' ∧
      op (c.dry storage) = ((op c).1, (op c).2.dry storage')

theorem Moored.within {α : Type} (h : c.Moored inUse before) (hsame : before.SameRows storage)
    {model : Model} {op : Scope → Except Error α × Scope}
    (hop : ∀ source, c.sources.get? model.record.ns = some source → source.info.model = model →
      (c.scope source).Pins (source.deposit inUse) before →
      (source.deposit inUse).Filed before →
      (c.scope source).Reflects (inUse model) storage →
        (op (c.scope source)).2.Pins (source.deposit inUse) before ∧
          Scope.Confined (c.scope source) (op (c.scope source)).2 ∧
          Scope.Repeats op (c.scope source) storage) :
    Agrees inUse before storage c (·.within model model.record.ns op) := by
  have hown : ∀ source, c.source model model.record.ns = .ok source →
      c.sources.get? model.record.ns = some source ∧
        (op (c.scope source)).2.Pins (source.deposit inUse) before ∧
          Scope.Confined (c.scope source) (op (c.scope source)).2 ∧
          Scope.Repeats op (c.scope source) storage := by
    intro source hsource
    obtain ⟨hget, hmodel⟩ := source_eq_ok hsource
    obtain ⟨hpins, hfiled⟩ := h.pins _ source hget
    exact ⟨hget, hop source hget hmodel hpins hfiled (hmodel ▸ h.reflects hsame hget)⟩
  refine ⟨?_, within_dry fun source hsource => (hown source hsource).2.2.2⟩
  cases hsource : c.source model model.record.ns with
  | error e =>
      simp only [Cache.within, hsource]
      exact h
  | ok source =>
      obtain ⟨hget, hpins, hconfined, -⟩ := hown source hsource
      simp only [Cache.within, hsource]
      exact h.adopt hget hpins hconfined

theorem Moored.create (h : c.Moored inUse before) (hsame : before.SameRows storage)
    {model : Model} {data : Json} (hused : inUse model (model.record.keyOf data)) (tmp : Bool) :
    Agrees inUse before storage c (·.create model model.record.ns data { tmp }) := by
  refine h.within hsame fun source _ hmodel hpins hfiled hreflects => ?_
  subst hmodel
  exact ⟨hpins.create hfiled hused tmp, Scope.confined_create _ data { tmp },
    Scope.create_dry hreflects hused tmp⟩

theorem Moored.get (h : c.Moored inUse before) (hsame : before.SameRows storage)
    {model : Model} {key : Key} (hused : inUse model key) :
    Agrees inUse before storage c (·.get model key) := by
  refine h.within hsame fun source _ hmodel hpins hfiled hreflects => ?_
  subst hmodel
  exact ⟨hpins.get hfiled hused, Scope.confined_get _ key, Scope.get_dry hreflects hused⟩

theorem Moored.getMulti (h : c.Moored inUse before) (hsame : before.SameRows storage)
    {model : Model} {keys : List Key} (hused : ∀ key ∈ keys, inUse model key) :
    Agrees inUse before storage c (·.getMulti model keys) := by
  refine h.within hsame fun source _ hmodel hpins hfiled hreflects => ?_
  subst hmodel
  exact ⟨hpins.getMulti hfiled hused, Scope.confined_getMulti _ keys,
    Scope.getMulti_dry hreflects hused⟩

theorem Moored.save (h : c.Moored inUse before) (hsame : before.SameRows storage)
    {model : Model} {id : Nat}
    (hid : ∀ i, c.instances[id]? = some i → i.record.type = model.record) :
    Agrees inUse before storage c (·.save model id) := by
  refine h.within hsame fun source _ hmodel hpins hfiled _ => ?_
  subst hmodel
  exact ⟨(hpins.save hfiled hid).1, Scope.confined_save _ hid,
    storage, .refl storage, Scope.save_dry _ storage id⟩

theorem Moored.sync (h : c.Moored inUse before) (hsame : before.SameRows storage)
    {model : Model} {id : Nat} (hid : c.Admits inUse (.sync model id)) :
    Agrees inUse before storage c (·.sync model id) := by
  refine h.within hsame fun source hget hmodel hpins hfiled _ => ?_
  subst hmodel
  have htypes := fun i hi => (hid i hi).1
  obtain ⟨hsynced, hresult⟩ := hpins.sync hfiled htypes
  refine ⟨hsynced, Scope.confined_sync _ htypes, storage, .refl storage, ?_⟩
  dsimp only
  rw [Scope.sync_dry, hresult fun i hi => (hid i hi).2 source hget]

theorem Moored.edit (h : c.Moored inUse before) {id : Nat} {e : Edit}
    (hkey : ∀ i, c.instances[id]? = some i → (i.record.edit e).key = i.record.key) :
    (c.edit id e).Moored inUse before := by
  cases hi : c.instances[id]? with
  | none =>
      have hresult : c.edit id e = c := by simp [Cache.edit, hi]
      rw [hresult]
      exact h
  | some i =>
      rw [edit_of_some hi e]
      refine ⟨h.keyed, fun ns source hget => ?_, h.apart, h.refused⟩
      obtain ⟨hpins, hfiled⟩ := h.pins ns source hget
      have hedited : ((c.scope source).setInstance id { i with record := i.record.edit e }).Pins
          (source.deposit inUse) before := by
        by_cases htype : i.record.type = (source.deposit inUse).type
        · exact hpins.setInstance hi htype (hkey i hi)
        · have hne : (i.record.edit e).type ≠ (source.deposit inUse).type := by
            rw [(i.record.edit_editsTo e).1]
            exact htype
          have haside : Scope.Aside (source.deposit inUse).type (source.deposit inUse).table
              (c.scope source)
              ((c.scope source).setInstance id { i with record := i.record.edit e }) :=
            Scope.aside_setInstance _ _ hi htype hne
          exact hpins.aside haside.content haside.instances
      exact ⟨hedited, hfiled⟩

theorem edit_dry (c : Cache) (storage : Storage) (n : Nat) (e : Edit) :
    (c.dry storage).operate (.edit n e) =
      ((c.operate (.edit n e)).1, (c.operate (.edit n e)).2.dry storage) := by
  have hget : (c.dry storage).instances[n]? = (c.instances[n]?).map Instance.unplaced :=
    List.getElem?_map
  cases hi : c.instances[n]? with
  | none =>
      rw [hi] at hget
      simp only [operate, Cache.edit, hget, hi, Option.map_none]
  | some i =>
      rw [hi] at hget
      obtain ⟨hedit, hreply⟩ := i.record.edit_unplaced e
      have hrecord : i.unplaced.record = i.record.unplaced := rfl
      simp only [operate, edit_of_some hi, edit_of_some hget, hget, hi, Option.map_some,
        Option.getD_some, hrecord, hedit, hreply]
      simp only [dry, List.map_set]
      rfl

/-- Waiting for sources whose consumers have nothing in their hands. -/
theorem Moored.syncNamespaces (h : c.Moored inUse before) (storage : Storage) {nss : List String}
    (hdistinct : nss.Nodup) (hrests : ∀ ns ∈ nss, ∀ source, c.sources.get? ns = some source →
      (c.scope source).Rests none) :
    (syncNamespaces nss c).1 = .ok () ∧ (syncNamespaces nss c).2.Moored inUse before ∧
      Cache.syncNamespaces nss (c.dry storage) = (.ok (), (syncNamespaces nss c).2.dry storage) := by
  induction nss generalizing c with
  | nil => exact ⟨rfl, h, rfl⟩
  | cons ns rest ih =>
      obtain ⟨hfresh, hdistinct⟩ := List.nodup_cons.mp hdistinct
      have hdry : (c.dry storage).sources.get? ns = (c.sources.get? ns).map Source.dry :=
        SortedMap.get?_map _ _ _
      cases hget : c.sources.get? ns with
      | none =>
          rw [hget] at hdry
          simp only [Cache.syncNamespaces, hget, hdry, Option.map_none]
          exact ih h hdistinct fun ns' hns' => hrests ns' (List.mem_cons_of_mem ns hns')
      | some source =>
          rw [hget] at hdry
          obtain ⟨hpins, hresult⟩ := (h.pins ns source hget).1.syncAll
          have hok := hresult (hrests ns List.mem_cons_self source hget)
          have hadopt := h.adopt hget hpins (Scope.confined_syncAll _)
          have hscope : (c.dry storage).scope source.dry = (c.scope source).dry storage := rfl
          simp only [Cache.syncNamespaces, hget, hdry, Option.map_some, hok, hscope,
            Scope.syncAll_dry, adopt_dry]
          refine ih hadopt hdistinct fun ns' hns' source' hget' => ?_
          have hne : ns ≠ ns' := fun heq => hfresh (heq ▸ hns')
          rw [get?_adopt_of_ne c _ hne] at hget'
          exact hrests ns' (List.mem_cons_of_mem ns hns') source' hget'

/-- Every operation keeps what the runs have in common, and gives the same in both. -/
theorem Moored.operate (h : c.Moored inUse before) (hsame : before.SameRows storage)
    {op : Operation} (hadmits : c.Admits inUse op) :
    Agrees inUse before storage c (·.operate op) := by
  have hmap : ∀ {α : Type} {f : α → Answer} {op : Cache → α × Cache},
      Agrees inUse before storage c op →
        Agrees inUse before storage c fun c => (op c).map f id := by
    rintro α f op ⟨hmoored, storage', hsame', hdry⟩
    exact ⟨hmoored, storage', hsame', by simp only [hdry, Prod.map_apply]; rfl⟩
  cases op with
  | create model data tmp => exact hmap (h.create hsame hadmits tmp)
  | get model key => exact hmap (h.get hsame hadmits)
  | getMulti model keys => exact hmap (h.getMulti hsame hadmits)
  | edit n e => exact ⟨h.edit hadmits, storage, .refl storage, edit_dry c storage n e⟩
  | save model n => exact hmap (h.save hsame hadmits)
  | sync model n => exact hmap (h.sync hsame hadmits)
  | syncAll =>
      have hdistinct : c.namespaces.Nodup := c.sources.nodup_keys
      obtain ⟨hok, hmoored, hdry⟩ := h.syncNamespaces storage hdistinct
        fun ns _ source => hadmits ns source
      have hkeys : (c.dry storage).namespaces = c.namespaces := SortedMap.keys_map _ _
      refine hmap ⟨hmoored, storage, .refl storage, ?_⟩
      dsimp only [Cache.syncAll]
      rw [hkeys, hok]
      exact hdry

theorem Moored.onSource (h : c.Moored inUse before) {op : Scope → Scope}
    (hpins : ∀ s p, s.Pins p before → (op s).Pins p before)
    (hconfined : ∀ s : Scope, Scope.Confined s (op s)) (ns : String) :
    (c.onSource ns op).Moored inUse before := by
  cases hget : c.sources.get? ns with
  | none =>
      simp only [Cache.onSource, hget]
      exact h
  | some source =>
      simp only [Cache.onSource, hget]
      exact h.adopt hget (hpins _ _ (h.pins ns source hget).1) (hconfined _)

end Moored

/-! ## Runs -/

/-- A live run and a dry run of the same operations.  In the live one the workers take steps at
any time in between, or the consumers of a source finish what they have in their hands. -/
inductive Twins (inUse : Model → Key → Prop) (live dry : Cache) : Cache → Cache → Prop
  | start : Twins inUse live dry live dry
  | operate {l d : Cache} (h : Twins inUse live dry l d) {op : Operation}
      (hadmits : l.Admits inUse op) : Twins inUse live dry (l.operate op).2 (d.operate op).2
  | deliver {l d : Cache} (h : Twins inUse live dry l d) (ns : String) (n : Nat)
      (a : DeliveryStep) : Twins inUse live dry (l.onSource ns (·.deliver n a)) d
  | finish {l d : Cache} (h : Twins inUse live dry l d) (ns : String) :
      Twins inUse live dry (l.onSource ns Scope.finish) d

section Twins

variable {inUse : Model → Key → Prop} {before : Storage} {live dry l d : Cache}

theorem Twins.operateAll (h : Twins inUse live dry l d) {ops : List Operation}
    (hadmits : l.AdmitsAll inUse ops) :
    Twins inUse live dry (l.operateAll ops) (d.operateAll ops) := by
  induction ops generalizing l d with
  | nil => exact h
  | cons op ops ih => exact ih (h.operate hadmits.1) hadmits.2

/-- The dry cache is the live one without savers, and its rows are those from the start. -/
theorem Twins.moored (h : Twins inUse live dry l d) (hlive : live.Moored inUse before)
    (hdry : dry = live.dry before) :
    l.Moored inUse before ∧ before.SameRows d.storage ∧ d = l.dry d.storage := by
  induction h with
  | start => exact ⟨hlive, by rw [hdry]; exact .refl before, by rw [hdry]; rfl⟩
  | operate _ hadmits ih =>
      obtain ⟨hl, hsame, hd⟩ := ih
      obtain ⟨hmoored, storage', hsame', hoperate⟩ := hl.operate hsame hadmits
      rw [hd]
      dsimp only at hoperate
      rw [hoperate]
      exact ⟨hmoored, hsame.trans hsame', rfl⟩
  | @deliver l d _ ns n a ih =>
      obtain ⟨hl, hsame, hd⟩ := ih
      refine ⟨hl.onSource (fun _ _ hs => hs.deliver n a) (fun s => s.confined_deliver n a) ns,
        hsame, ?_⟩
      exact hd.trans (onSource_dry (fun s => s.stepSaver_dry d.storage _) l ns).symm
  | @finish l d _ ns ih =>
      obtain ⟨hl, hsame, hd⟩ := ih
      refine ⟨hl.onSource (fun _ _ hs => hs.finish.1) Scope.confined_finish ns, hsame, ?_⟩
      exact hd.trans (onSource_dry (fun s => s.stepSaver_dry d.storage _) l ns).symm

/-- The consumers of all sources may finish what they have in their hands.  Then whoever waits
for a flush may do so. -/
theorem Twins.exists_rested (h : Twins inUse live dry l d) (hlive : live.Moored inUse before)
    (hdry : dry = live.dry before) :
    ∃ l', Twins inUse live dry l' d ∧ ∀ ns source, l'.sources.get? ns = some source →
      ∀ hash, (l'.scope source).Rests hash := by
  -- Source by source, and a source that rests goes on to rest.
  have hsome : ∀ nss : List String, ∃ l', Twins inUse live dry l' d ∧
      (∀ ns, l.sources.get? ns = none → l'.sources.get? ns = none) ∧
      ∀ ns ∈ nss, ∀ source, l'.sources.get? ns = some source →
        ∀ hash, (l'.scope source).Rests hash := by
    intro nss
    induction nss with
    | nil => exact ⟨l, h, fun _ hnone => hnone, nofun⟩
    | cons ns nss ih =>
        obtain ⟨l', htwins, hnone, hrests⟩ := ih
        cases hget : l'.sources.get? ns with
        | none =>
            refine ⟨l', htwins, hnone, fun ns' hns' source hget' => ?_⟩
            rcases List.mem_cons.mp hns' with rfl | hns'
            · rw [hget] at hget'
              cases hget'
            · exact hrests ns' hns' source hget'
        | some source =>
            have honSource : l'.onSource ns Scope.finish = l'.adopt ns (l'.scope source).finish := by
              simp only [onSource, hget]
            have hpins := ((htwins.moored hlive hdry).1.pins ns source hget).1
            refine ⟨l'.onSource ns Scope.finish, htwins.finish ns, ?_⟩
            rw [honSource]
            refine ⟨fun ns' hns' => ?_, fun ns' hns' source' hget' => ?_⟩
            · have hne : ns ≠ ns' := by
                rintro rfl
                rw [hnone ns hns'] at hget
                cases hget
              rw [get?_adopt_of_ne l' _ hne]
              exact hnone ns' hns'
            · by_cases hne : ns = ns'
              · subst hne
                rw [get?_adopt_self] at hget'
                rw [← Option.some.inj hget']
                exact hpins.finish.2
              · rw [get?_adopt_of_ne l' _ hne] at hget'
                have hmem := (List.mem_cons.mp hns').resolve_left (Ne.symm hne)
                exact hrests ns' hmem source' hget'
  obtain ⟨l', htwins, hnone, hrests⟩ := hsome l.namespaces
  refine ⟨l', htwins, fun ns source hget => hrests ns ?_ source hget⟩
  cases hl : l.sources.get? ns with
  | none =>
      rw [hnone ns hl] at hget
      cases hget
  | some source' => exact List.mem_map_of_mem (SortedMap.get?_eq_some_iff.mp hl)

end Twins

end Cache

end WriteBehind
