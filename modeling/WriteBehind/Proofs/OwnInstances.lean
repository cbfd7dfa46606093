import WriteBehind.Proofs.CacheRequests

/-!
# A source and its instances

The live slots of a source lead to instances of its own records (`Scope.Typed`).  That stays
so because operations on a source do three things to slots and instances: they add
instances, they change instances without changing their type, and they put instances of the
source's records into slots (`Scope.Grows`).
-/

namespace WriteBehind

/-! ## Reading the same -/

namespace Storage

/-- A table reads the same in two states of the storage. -/
structure ReadsSame (table : TableRef) (s s' : Storage) : Prop where
  fetch : ∀ onlyOne key, (fetch table onlyOne key s').1 = (fetch table onlyOne key s).1
  fetchMulti : ∀ keys, (fetchMulti table keys s').1 = (fetchMulti table keys s).1
  find : ∀ filter, (find table filter s').1 = (find table filter s).1

/-- A call that is not refused reads the rows that are there. -/
theorem read_fst (s : Storage) (table : TableRef) (stage : Stage) (rows : Rows → List Document) :
    (read table stage rows s).1 =
      (s.askTable table stage).1.map fun _ => .ofRows (rows (s.rows table)) := by
  have hasked := content_askTable s table table stage
  cases hask : s.askTable table stage with
  | mk result s' =>
      rw [hask] at hasked
      cases result with
      | error e =>
          simp only [read, hask]
          rfl
      | ok u =>
          simp only [read, hask]
          rw [rows_congr hasked]
          rfl

/-- What is read depends on the content of a table and on what is refused. -/
theorem readsSame_of_content {table : TableRef} {s s' : Storage}
    (hcontent : s'.content table = s.content table)
    (hrefused : s'.audited.refused = s.audited.refused) : ReadsSame table s s' := by
  have hasked : ∀ stage, (s'.askTable table stage).1 = (s.askTable table stage).1 := by
    intro stage
    cases table with
    | none | memory ns | file path name => rfl
    | audited ns => simp only [askTable, ask, AuditedStore.ask, hrefused]
  have hread : ∀ stage rows, (read table stage rows s').1 = (read table stage rows s).1 := by
    intro stage rows
    rw [read_fst, read_fst, hasked, rows_congr hcontent]
  exact ⟨fun _ _ => hread _ _, fun _ => hread _ _, fun _ => hread _ _⟩

/-- What is refused does not change while a table is read. -/
theorem refused_read (table : TableRef) (stage : Stage) (rows : Rows → List Document)
    (s : Storage) : (read table stage rows s).2.audited.refused = s.audited.refused := by
  have hasked : (s.askTable table stage).2.audited.refused = s.audited.refused := by
    cases table <;> rfl
  cases hask : s.askTable table stage with
  | mk result s' =>
      rw [hask] at hasked
      cases result <;> simpa only [read, hask] using hasked

/-- Writes do not change what is refused. -/
theorem save_hides_refused (table : TableRef) :
    Save.Hides (save table) fun s => s.audited.refused := by
  intro cs running s
  cases table with
  | none | memory ns | file path name => rfl
  | audited ns => rfl

end Storage

/-! ## Instances of a source -/

namespace Saver

variable {σ γ : Type} {save : Save σ} {view : σ → γ}

theorem view_elapse (h : Save.Hides save view) (s : Saver) (t : σ) :
    view (s.elapse save t).2 = view t :=
  view_mapWorkers (fun w t => Worker.view_flush h w.expire.poll t) _ t

end Saver

/-- A stored instance takes no slot but that of its key. -/
theorem Repo.live_of_setOnStore {r : Repo Key Nat} {key k : Key} {v id : Nat}
    (h : (r.setOnStore key v).2.get k = some (.live id)) :
    r.get k = some (.live id) ∨ v = id := by
  cases hget : r.get key with
  | none =>
      simp only [setOnStore, hget, get_set] at h
      split at h
      · exact .inr (by simpa using h)
      · exact .inl h
  | some slot =>
      cases slot with
      | live cached =>
          simp only [setOnStore, hget] at h
          exact .inl h
      | missing =>
          simp only [setOnStore, hget, get_set] at h
          split at h
          · exact .inr (by simpa using h)
          · exact .inl h

namespace Scope

/-- Every live slot leads to an instance of the source's records. -/
def Typed (s : Scope) : Prop :=
  ∀ key id, s.source.repo.get key = some (.live id) →
    ∃ i, s.instances[id]? = some i ∧ i.record.type = s.type

/-- What every operation on a source does: no instance goes or changes its type, and slots
come to lead to instances of the source's records only. -/
structure Grows (s s' : Scope) : Prop where
  info : s'.source.info = s.source.info
  refused : s'.storage.audited.refused = s.storage.audited.refused
  kept : ∀ (id : Nat) (i : Instance), s.instances[id]? = some i →
    ∃ i', s'.instances[id]? = some i' ∧ i'.record.type = i.record.type
  live : ∀ key id, s'.source.repo.get key = some (.live id) →
    s.source.repo.get key = some (.live id) ∨
      ∃ i, s'.instances[id]? = some i ∧ i.record.type = s.type

section Grows

variable {s s' s'' : Scope} {id : Nat} {i i' : Instance}

theorem Grows.refl (s : Scope) : Grows s s :=
  ⟨rfl, rfl, fun _ i hi => ⟨i, hi, rfl⟩, fun _ _ hlive => .inl hlive⟩

theorem Grows.type_eq (h : Grows s s') : s'.type = s.type :=
  congrArg (·.model.record) h.info

theorem Grows.trans (h : Grows s s') (h' : Grows s' s'') : Grows s s'' := by
  refine ⟨h'.info.trans h.info, h'.refused.trans h.refused, ?_, ?_⟩
  · intro id i hi
    obtain ⟨i', hi', htype⟩ := h.kept id i hi
    obtain ⟨i'', hi'', htype'⟩ := h'.kept id i' hi'
    exact ⟨i'', hi'', htype'.trans htype⟩
  · intro key id hlive
    rcases h'.live key id hlive with hlive' | ⟨i, hi, htype⟩
    · rcases h.live key id hlive' with hold | ⟨i, hi, htype⟩
      · exact .inl hold
      · obtain ⟨i', hi', htype'⟩ := h'.kept id i hi
        exact .inr ⟨i', hi', htype'.trans htype⟩
    · exact .inr ⟨i, hi, htype.trans h.type_eq⟩

theorem Grows.typed (h : Grows s s') (hs : s.Typed) : s'.Typed := by
  intro key id hlive
  rw [h.type_eq]
  rcases h.live key id hlive with hold | hnew
  · obtain ⟨i, hi, htype⟩ := hs key id hold
    obtain ⟨i', hi', htype'⟩ := h.kept id i hi
    exact ⟨i', hi', htype'.trans htype⟩
  · exact hnew

/-- A step that leaves slots and instances alone. -/
theorem grows_of_source (s : Scope) {source : Source} {storage : Storage}
    (hinfo : source.info = s.source.info) (hrepo : source.repo = s.source.repo)
    (hrefused : storage.audited.refused = s.storage.audited.refused) :
    Grows s ⟨source, s.instances, storage⟩ :=
  ⟨hinfo, hrefused, fun _ i hi => ⟨i, hi, rfl⟩, fun _ _ hlive => .inl (hrepo ▸ hlive)⟩

theorem grows_setRepo (s : Scope) {repo : Repo Key Nat}
    (hlive : ∀ key id, repo.get key = some (.live id) →
      s.source.repo.get key = some (.live id) ∨
        ∃ i, s.instances[id]? = some i ∧ i.record.type = s.type) :
    Grows s (s.setRepo repo) :=
  ⟨rfl, rfl, fun _ i hi => ⟨i, hi, rfl⟩, hlive⟩

theorem grows_addInstance (s : Scope) (i : Instance) : Grows s (s.addInstance i).2 := by
  refine ⟨rfl, rfl, ?_, fun _ _ hlive => .inl hlive⟩
  intro id x hx
  have hlt := (List.getElem?_eq_some_iff.mp hx).1
  exact ⟨x, by rw [addInstance, List.getElem?_append_left hlt, hx], rfl⟩

theorem grows_setInstance (s : Scope) (hi : s.instances[id]? = some i)
    (htype : i'.record.type = i.record.type) : Grows s (s.setInstance id i') := by
  refine ⟨rfl, rfl, ?_, fun _ _ hlive => .inl hlive⟩
  intro id' x hx
  by_cases hid : id = id'
  · subst hid
    obtain rfl := Option.some.inj (hi.symm.trans hx)
    have hlt := (List.getElem?_eq_some_iff.mp hi).1
    exact ⟨i', by rw [setInstance, List.getElem?_set_self hlt], htype⟩
  · exact ⟨x, by rw [setInstance, List.getElem?_set_ne hid, hx], rfl⟩

/-! ## Fetching -/

theorem grows_publish (s : Scope) (key : Key) (data : Option Json) :
    Grows s (s.publish key data).2 := by
  cases hget : s.source.repo.get key with
  | some slot =>
      rw [publish_of_cached hget]
      exact .refl s
  | none =>
      cases data with
      | none =>
          rw [publish_of_absent hget]
          refine grows_setRepo s fun k id hlive => .inl ?_
          rw [(Repo.get_setOnFetch_none hget k).2.2] at hlive
          split at hlive
          · cases hlive
          · exact hlive
      | some data =>
          rw [publish_of_found hget]
          have hadd := grows_addInstance s ⟨.load s.type data, [s.birth]⟩
          refine ⟨rfl, rfl, hadd.kept, fun k id hlive => ?_⟩
          rw [(Repo.get_setOnFetch_some hget s.instances.length k).2.2] at hlive
          split at hlive
          · obtain rfl : s.instances.length = id := by simpa using hlive
            exact .inr ⟨_, List.getElem?_concat_length, rfl⟩
          · exact .inl hlive

theorem grows_publishRows (s : Scope) (rows : List Json) : Grows s (s.publishRows rows).2 := by
  induction rows generalizing s with
  | nil => exact .refl s
  | cons data rows ih => exact (grows_publish s _ _).trans (ih _)

theorem grows_publishMissing (s : Scope) (keys : List Key) : Grows s (s.publishMissing keys) := by
  induction keys generalizing s with
  | nil => exact .refl s
  | cons key keys ih => exact (grows_publish s key none).trans (ih _)

theorem grows_get (s : Scope) (key : Key) : Grows s (s.get key).2 := by
  have hfetched : Grows s (s.fetched key) :=
    grows_of_source s rfl rfl (Storage.refused_read _ _ _ s.storage)
  simp only [get]
  split
  · exact .refl s
  · split
    · exact hfetched
    · exact hfetched.trans (grows_publish (s.fetched key) key _)

theorem grows_find (s : Scope) (filter : Document) : Grows s (s.find filter).2 := by
  have hsearched : Grows s (s.searched filter) :=
    grows_of_source s rfl rfl (Storage.refused_read _ _ _ s.storage)
  simp only [find]
  split
  · exact hsearched
  · exact hsearched.trans (grows_publishRows (s.searched filter) _)

theorem grows_getMulti (s : Scope) (keys : List Key) : Grows s (s.getMulti keys).2 := by
  have hfetched : ∀ keys, Grows s (s.fetchedMulti keys) := fun keys =>
    grows_of_source s rfl rfl (Storage.refused_read _ _ _ s.storage)
  simp only [getMulti]
  split
  · exact .refl s
  · split
    · exact hfetched _
    · exact ((hfetched _).trans (grows_publishRows _ _)).trans (grows_publishMissing _ _)

/-! ## Creating and saving -/

theorem grows_setOnStore (s : Scope) (key : Key) (hi : s.instances[id]? = some i)
    (htype : i.record.type = s.type) :
    Grows s (s.setRepo (s.source.repo.setOnStore key id).2) := by
  refine grows_setRepo s fun k id' hlive => ?_
  rcases Repo.live_of_setOnStore hlive with hold | rfl
  · exact .inl hold
  · exact .inr ⟨i, hi, htype⟩

theorem grows_create (s : Scope) (data : Json) (flags : CreateFlags) :
    Grows s (s.create data flags).2 := by
  have hadd : ∀ s' : Scope, Grows s' (s'.addInstance ⟨newRecord s.type data flags, [.create]⟩).2 :=
    fun s' => grows_addInstance s' _
  have hget := grows_get s (newRecord s.type data flags).key
  simp only [create]
  split
  · exact hadd s
  · split
    next hresult =>
      rw [hresult] at hget
      exact hget
    next hresult =>
      rw [hresult] at hget
      exact hget
    next s' hresult =>
      rw [hresult] at hget
      have hnew : (s'.addInstance ⟨newRecord s.type data flags, [.create]⟩).2.instances[
          s'.instances.length]? = some ⟨newRecord s.type data flags, [.create]⟩ :=
        List.getElem?_concat_length
      have hcreated := hget.trans (hadd s')
      split
      · exact hcreated.trans (grows_setOnStore _ _ hnew hcreated.type_eq.symm)
      · exact hcreated

theorem grows_submit (s : Scope) (hi : s.instances[id]? = some i)
    (htype : i'.record.type = i.record.type) (c : Snapshot) : Grows s (s.submit id i' c) := by
  cases hsaver : s.source.saver with
  | none =>
      simp only [submit, hsaver]
      exact grows_setInstance s hi htype
  | some saver =>
      have hput := Saver.view_put (Storage.save_hides_refused s.source.table) saver (.snapshot c)
        i'.record.header.savingIndex s.storage
      simp only [submit, hsaver]
      refine Grows.trans (grows_of_source s ?_ ?_ hput) (grows_setInstance _ hi ?_)
      · rfl
      · rfl
      · exact htype

theorem grows_commit (s : Scope) (hi : s.instances[id]? = some i) : Grows s (s.commit id i).2 := by
  have hforget : ∀ s' : Scope,
      Grows s' (s'.setRepo (s'.source.repo.setOnDelete i.record.key id).2) := by
    intro s'
    refine grows_setRepo s' fun k id' hlive => .inl ?_
    rw [(Repo.get_setOnDelete_any _ _ _ k).2] at hlive
    split at hlive
    · split at hlive <;> cases hlive
    · exact hlive
  cases hcommit : i.record.commit with
  | none =>
      simp only [commit, hcommit]
      split
      · exact hforget s
      · exact .refl s
  | some r =>
      have hsame : r.2.type = i.record.type := by
        simp only [Record.commit] at hcommit
        split at hcommit
        · obtain rfl := Option.some.inj hcommit
          rfl
        · cases hcommit
      have hstep : Grows s (s.submit id ⟨r.2, i.events ++ committedEvent r.1⟩ r.1) :=
        grows_submit s hi hsame r.1
      simp only [commit, hcommit]
      split
      · exact hstep.trans (hforget _)
      · exact hstep

theorem grows_save (s : Scope)
    (htype : ∀ i, s.instances[id]? = some i → i.record.type = s.type) :
    Grows s (s.save id).2 := by
  cases hi : s.instances[id]? with
  | none =>
      simp only [save, hi]
      exact .refl s
  | some i =>
      simp only [save, hi]
      split
      · exact .refl s
      · split
        · split
          · have hstored := grows_setOnStore s i.record.key hi (htype i hi)
            exact hstored.trans (grows_commit (s.setRepo _) hi)
          · exact .refl s
        · exact grows_commit s hi

theorem grows_sync (s : Scope)
    (htype : ∀ i, s.instances[id]? = some i → i.record.type = s.type) :
    Grows s (s.sync id).2 := by
  have hsave := grows_save s htype
  simp only [sync]
  split
  next hresult =>
    rw [hresult] at hsave
    exact hsave
  next s' hresult =>
    rw [hresult] at hsave
    split
    · exact hsave.trans (grows_of_source s' rfl rfl
        (Saver.view_sync (Storage.save_hides_refused s'.source.table) _ _ s'.storage))
    · exact hsave

theorem grows_expire (s : Scope) (key : Key) : Grows s (s.expire key).2 := by
  have hrepo : Grows s (s.setRepo (s.source.repo.expire key).2) := by
    refine grows_setRepo s fun k id hlive => .inl ?_
    rw [Repo.expire, Repo.get_erase] at hlive
    split at hlive
    · cases hlive
    · exact hlive
  cases hcached : (s.source.repo.expire key).1 with
  | none =>
      simp only [expire, hcached]
      exact hrepo
  | some id =>
      simp only [expire, hcached]
      cases hi : (s.setRepo (s.source.repo.expire key).2).instances[id]? with
      | none => exact hrepo
      | some i => exact hrepo.trans (grows_setInstance _ hi rfl)

/-! ## The saver -/

theorem grows_syncAll (s : Scope) : Grows s s.syncAll.2 := by
  cases hsaver : s.source.saver with
  | none =>
      simp only [syncAll, hsaver]
      exact .refl s
  | some saver =>
      simp only [syncAll, hsaver]
      exact grows_of_source s rfl rfl
        (Saver.view_sync (Storage.save_hides_refused s.source.table) saver none s.storage)

theorem grows_stepSaver (s : Scope) {step : Saver → Storage → Saver × Storage}
    (hstep : ∀ saver,
      (step saver s.storage).2.audited.refused = s.storage.audited.refused) :
    Grows s (s.stepSaver step) := by
  cases hsaver : s.source.saver with
  | none =>
      simp only [stepSaver, hsaver]
      exact .refl s
  | some saver =>
      simp only [stepSaver, hsaver]
      exact grows_of_source s rfl rfl (hstep saver)

theorem grows_deliver (s : Scope) (n : Nat) (a : DeliveryStep) : Grows s (s.deliver n a) :=
  grows_stepSaver s fun saver =>
    Saver.view_advance (Storage.save_hides_refused s.source.table) saver n a s.storage

theorem grows_close (s : Scope) : Grows s s.close :=
  grows_stepSaver s fun saver =>
    Saver.view_close (Storage.save_hides_refused s.source.table) saver s.storage

theorem grows_elapse (s : Scope) : Grows s s.elapse := by
  rw [elapse]
  split
  · exact grows_stepSaver s fun _ => rfl
  · exact grows_stepSaver s fun saver =>
      Saver.view_elapse (Storage.save_hides_refused s.source.table) saver s.storage

theorem aside_elapse {s : Scope} {table : TableRef} (t : RecordType)
    (hother : s.source.table ≠ table) : Aside t table s s.elapse := by
  rw [elapse]
  split
  · exact aside_stepSaver t s fun _ => rfl
  · exact aside_stepSaver t s fun saver =>
      Saver.view_elapse (Storage.save_hides hother) saver s.storage

end Grows

end Scope

end WriteBehind
