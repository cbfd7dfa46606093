import WriteBehind.Proofs.Neighbours
import WriteBehind.Proofs.Seating

/-!
# What becomes of instances

Operations on a source do four things to its instances and live slots.  Fetches add records
that were just loaded, and hand out what is live then (`Scope.Loads`).  A creation adds one
more record after a fetch (`Scope.create_loads`).  A save replaces an instance by what its
commit leaves of it (`Scope.Commits`).  The saver touches neither
(`Scope.SameInstances`).
-/

namespace WriteBehind

/-- What a commit leaves of an instance that has something to commit. -/
def Instance.committed (i : Instance) (place : Option Nat) : Instance where
  record := { i.record with header := i.record.header.beginCommit.finishCommit.setSavingIndex place }
  events := i.events ++ Scope.committedEvent i.record.capture

namespace Scope

variable {s s' s'' : Scope} {key : Key} {id : Nat} {i : Instance} {ids ids' : List Nat}

/-! ## Fetches -/

/-- What a fetch does that hands out some instances: instances and live slots stay, slots
come to lead to records that were just loaded, and what is handed out is live. -/
structure Loads (s : Scope) (ids : List Nat) (s' : Scope) : Prop where
  info : s'.source.info = s.source.info
  kept : ∀ (id : Nat) (i : Instance), s.instances[id]? = some i → s'.instances[id]? = some i
  stays : ∀ key id, s.source.repo.get key = some (.live id) →
    s'.source.repo.get key = some (.live id)
  live : ∀ key id, s'.source.repo.get key = some (.live id) →
    s.source.repo.get key = some (.live id) ∨ s.instances[id]? = none ∧
      ∃ data, s'.instances[id]? = some ⟨.load s.type data, [s.birth]⟩
  handed : ∀ id ∈ ids, ∃ key, s'.source.repo.get key = some (.live id)

theorem Loads.type_eq (h : Loads s ids s') : s'.type = s.type :=
  congrArg (·.model.record) h.info

theorem Loads.birth_eq (h : Loads s ids s') : s'.birth = s.birth := by
  rw [birth, h.info, birth]

/-- A step that leaves slots and instances alone. -/
theorem loads_of_source (s : Scope) {source : Source} {storage : Storage}
    (hinfo : source.info = s.source.info) (hrepo : source.repo = s.source.repo) :
    Loads s [] ⟨source, s.instances, storage⟩ := by
  refine ⟨hinfo, fun _ _ hi => hi, fun _ _ hlive => ?_, fun _ _ hlive => .inl ?_, ?_⟩
  · exact hrepo ▸ hlive
  · exact hrepo ▸ hlive
  · exact List.forall_mem_nil _

theorem Loads.refl (s : Scope) : Loads s [] s := loads_of_source s rfl rfl

theorem Loads.trans (h : Loads s ids s') (h' : Loads s' ids' s'') :
    Loads s (ids ++ ids') s'' := by
  refine ⟨h'.info.trans h.info, ?_, ?_, ?_, ?_⟩
  · exact fun id i hi => h'.kept id i (h.kept id i hi)
  · exact fun key id hlive => h'.stays key id (h.stays key id hlive)
  · intro key id hlive
    rcases h'.live key id hlive with hmid | ⟨hnew, data, hi⟩
    · rcases h.live key id hmid with hold | ⟨hnew, data, hi⟩
      · exact .inl hold
      · exact .inr ⟨hnew, data, h'.kept id _ hi⟩
    · refine .inr ⟨?_, data, ?_⟩
      · refine Option.eq_none_iff_forall_ne_some.mpr fun i hold => ?_
        rw [h.kept id i hold] at hnew
        cases hnew
      · rw [hi, h.type_eq, h.birth_eq]
  · intro id hid
    rcases List.mem_append.mp hid with hid | hid
    · obtain ⟨key, hlive⟩ := h.handed id hid
      exact ⟨key, h'.stays key id hlive⟩
    · exact h'.handed id hid

/-- What is live in the end may be handed out. -/
theorem Loads.hand (h : Loads s ids s')
    (hlive : ∀ id ∈ ids', ∃ key, s'.source.repo.get key = some (.live id)) : Loads s ids' s' :=
  ⟨h.info, h.kept, h.stays, h.live, hlive⟩

theorem loads_publish (s : Scope) (key : Key) (data : Option Json) :
    Loads s (s.publish key data).1.toList (s.publish key data).2 := by
  have hstays : ∀ k id, s.source.repo.get k = some (.live id) →
      (s.publish key data).2.source.repo.get k = some (.live id) :=
    fun k id hlive => get_publish_of_cached s key data hlive
  have hhanded : ∀ id ∈ (s.publish key data).1.toList,
      ∃ k, (s.publish key data).2.source.repo.get k = some (.live id) :=
    fun id hid => ⟨key, get_publish_of_some (Option.mem_toList.mp hid)⟩
  cases hget : s.source.repo.get key with
  | some slot =>
      rw [publish_of_cached hget] at hhanded ⊢
      exact (Loads.refl s).hand hhanded
  | none =>
      cases data with
      | none =>
          rw [publish_of_absent hget] at hstays hhanded ⊢
          refine ⟨rfl, fun _ _ hi => hi, hstays, fun k id hlive => .inl ?_, hhanded⟩
          rw [setRepo, (Repo.get_setOnFetch_none hget k).2.2] at hlive
          split at hlive
          · cases hlive
          · exact hlive
      | some data =>
          rw [publish_of_found hget] at hstays hhanded ⊢
          refine ⟨rfl, fun id i hi => ?_, hstays, fun k id hlive => ?_, hhanded⟩
          · have hlt := (List.getElem?_eq_some_iff.mp hi).1
            rw [List.getElem?_append_left hlt, hi]
          · rw [(Repo.get_setOnFetch_some hget s.instances.length k).2.2] at hlive
            split at hlive
            · obtain rfl : s.instances.length = id := by simpa using hlive
              exact .inr ⟨List.getElem?_eq_none (Nat.le_refl _), data, List.getElem?_concat_length⟩
            · exact .inl hlive

theorem loads_publishRows (s : Scope) (rows : List Json) :
    Loads s (s.publishRows rows).1 (s.publishRows rows).2 := by
  induction rows generalizing s with
  | nil => exact .refl s
  | cons data rows ih => exact (loads_publish s _ _).trans (ih _)

theorem Loads.publishMissing (h : Loads s ids s') (keys : List Key) :
    Loads s ids (s'.publishMissing keys) := by
  induction keys generalizing s' with
  | nil => exact h
  | cons key keys ih =>
      refine ih ((h.trans (loads_publish s' key none)).hand fun id hid => ?_)
      obtain ⟨k, hlive⟩ := h.handed id hid
      exact ⟨k, get_publish_of_cached s' key none hlive⟩

theorem loads_get (s : Scope) (key : Key) :
    Loads s (s.get key).1.toOption.join.toList (s.get key).2 := by
  have hfetched : Loads s [] (s.fetched key) := loads_of_source s rfl rfl
  cases hget : s.source.repo.get key with
  | some slot =>
      have hresult : s.get key = (.ok slot.live?, s) := by simp [get, hget]
      rw [hresult]
      refine (Loads.refl s).hand fun id hid => ⟨key, ?_⟩
      have hlive : slot.live? = some id := Option.mem_toList.mp hid
      cases slot with
      | live id' => rw [hget, Option.some.inj hlive]
      | missing => cases hlive
  | none =>
      cases hfetch : (s.storage.fetch s.source.table true key.text).1.bind (firstData s.type) with
      | error e =>
          rw [get_of_error hget hfetch]
          exact hfetched
      | ok data =>
          rw [get_of_ok hget hfetch]
          exact hfetched.trans (loads_publish (s.fetched key) key data)

theorem loads_find (s : Scope) (filter : Document) :
    Loads s ((s.find filter).1.toOption.getD []) (s.find filter).2 := by
  have hsearched : Loads s [] (s.searched filter) := loads_of_source s rfl rfl
  simp only [find]
  split
  · exact hsearched
  · exact hsearched.trans (loads_publishRows (s.searched filter) _)

theorem loads_getMulti (s : Scope) (keys : List Key) :
    Loads s ((s.getMulti keys).1.toOption.getD []) (s.getMulti keys).2 := by
  have hfetched : ∀ keys, Loads s [] (s.fetchedMulti keys) := fun keys =>
    loads_of_source s rfl rfl
  have hcached : ∀ id ∈ (s.source.repo.getMulti keys).1,
      ∃ key, s.source.repo.get key = some (.live id) := by
    intro id hid
    obtain ⟨key, -, hlive⟩ := live_of_mem_getMulti hid
    exact ⟨key, hlive⟩
  simp only [getMulti]
  split
  · exact (Loads.refl s).hand hcached
  · split
    · exact hfetched _
    · exact (((hfetched _).hand hcached).trans (loads_publishRows _ _)).publishMissing _

/-! ## Creations -/

/-- A record that is created: its instance is the last one after a fetch, and no other
instance comes to be live. -/
structure Creates (s : Scope) (new : Instance) (id : Nat) (s' : Scope) : Prop where
  exists_fetched : ∃ mid, Loads s [] mid ∧ id = mid.instances.length ∧
    s'.source.info = mid.source.info ∧ s'.instances = mid.instances ++ [new] ∧
    ∀ key id', s'.source.repo.get key = some (.live id') →
      mid.source.repo.get key = some (.live id') ∨ id' = id

/-- A creation fails after its fetch, or adds a record. -/
theorem create_loads (s : Scope) (data : Json) (flags : CreateFlags) :
    (∃ e, (s.create data flags).1 = .error e ∧ Loads s [] (s.create data flags).2) ∨
      ∃ id, (s.create data flags).1 = .ok id ∧
        Creates s ⟨newRecord s.type data flags, [.create]⟩ id (s.create data flags).2 := by
  have hget := loads_get s (newRecord s.type data flags).key
  simp only [create]
  split
  · exact .inr ⟨_, rfl, s, .refl s, rfl, rfl, rfl, fun _ _ hlive => .inl hlive⟩
  · split
    next e mid hresult =>
      rw [hresult] at hget
      exact .inl ⟨e, rfl, hget⟩
    next mid hresult =>
      rw [hresult] at hget
      exact .inl ⟨_, rfl, hget.hand (List.forall_mem_nil _)⟩
    next mid hresult =>
      rw [hresult] at hget
      have hnone : (s.get (newRecord s.type data flags).key).1 = .ok none := by rw [hresult]
      have hfree := free_of_get_none hnone
      rw [hresult] at hfree
      split
      · refine .inr ⟨_, rfl, mid, hget, rfl, rfl, rfl, fun key id' hlive => ?_⟩
        exact (Repo.live_of_setOnStore hlive).imp_right Eq.symm
      next hstored =>
        have hfits := Repo.get_setOnStore_of_free hfree mid.instances.length
          (newRecord s.type data flags).key
        exact absurd hfits.1 hstored

/-! ## Saves -/

/-- What a save of an instance does that answers whether it committed something. -/
structure Commits (s : Scope) (id : Nat) (committed : Bool) (s' : Scope) : Prop where
  info : s'.source.info = s.source.info
  live : ∀ key id', s'.source.repo.get key = some (.live id') →
    s.source.repo.get key = some (.live id') ∨ id' = id
  clean : committed = false → s'.instances = s.instances
  dirty : committed = true → ∃ i place, s.instances[id]? = some i ∧
    i.record.header.dirty = true ∧ s'.instances = s.instances.set id (i.committed place)

/-- A save that commits nothing may leave everything as it is. -/
theorem Commits.refl (s : Scope) (id : Nat) : Commits s id false s :=
  ⟨rfl, fun _ _ hlive => .inl hlive, fun _ => rfl, Bool.noConfusion⟩

theorem exists_committed_submit {c : Snapshot} {r : Record}
    (hcommit : i.record.commit = some (c, r)) (s : Scope) (id : Nat) :
    i.record.header.dirty = true ∧ ∃ place,
      (s.submit id ⟨r, i.events ++ committedEvent c⟩ c).instances =
        s.instances.set id (i.committed place) := by
  cases hdirty : i.record.header.dirty with
  | false =>
      rw [Record.commit_of_clean hdirty] at hcommit
      cases hcommit
  | true =>
      rw [Record.commit_of_dirty hdirty] at hcommit
      obtain ⟨rfl, rfl⟩ := Prod.mk.inj (Option.some.inj hcommit)
      exact ⟨rfl, exists_instances_submit s id _ _⟩

theorem info_submit (s : Scope) (id : Nat) (i : Instance) (c : Snapshot) :
    (s.submit id i c).source.info = s.source.info := by
  cases hsaver : s.source.saver <;> simp [submit, hsaver, setInstance]

/-- An instance is forgotten after its removal. -/
theorem Commits.forget {committed : Bool} (h : Commits s id committed s') (key : Key) (id' : Nat) :
    Commits s id committed (s'.setRepo (s'.source.repo.setOnDelete key id').2) := by
  refine ⟨h.info, fun k id'' hlive => h.live k id'' ?_, h.clean, h.dirty⟩
  rw [setRepo, (Repo.get_setOnDelete_any _ _ _ k).2] at hlive
  split at hlive
  · split at hlive <;> cases hlive
  · exact hlive

theorem commits_commit (s : Scope) (hi : s.instances[id]? = some i) :
    Commits s id (s.commit id i).1 (s.commit id i).2 := by
  cases hcommit : i.record.commit with
  | none =>
      simp only [commit, hcommit]
      split
      · exact (Commits.refl s id).forget _ _
      · exact .refl s id
  | some cr =>
      obtain ⟨c, r⟩ := cr
      obtain ⟨hdirty, place, hinstances⟩ := exists_committed_submit hcommit s id
      have hsubmitted : Commits s id true (s.submit id ⟨r, i.events ++ committedEvent c⟩ c) := by
        refine ⟨info_submit s id _ c, fun key id' hlive => ?_, ?_, ?_⟩
        · rw [repo_submit] at hlive
          exact .inl hlive
        · intro hno
          cases hno
        · exact fun _ => ⟨i, place, hi, hdirty, hinstances⟩
      simp only [commit, hcommit]
      split
      · exact hsubmitted.forget _ _
      · exact hsubmitted

theorem commits_save (s : Scope) (id : Nat) :
    Commits s id ((s.save id).1.toOption.getD false) (s.save id).2 := by
  cases hi : s.instances[id]? with
  | none =>
      simp only [save, hi]
      exact .refl s id
  | some i =>
      simp only [save, hi]
      split
      · exact .refl s id
      · split
        · split
          · have hcommits := commits_commit
              (s.setRepo (s.source.repo.setOnStore i.record.key id).2) hi
            refine ⟨hcommits.info, fun key id' hlive => ?_, hcommits.clean, hcommits.dirty⟩
            rcases hcommits.live key id' hlive with hstored | hsaved
            · exact (Repo.live_of_setOnStore hstored).imp_right Eq.symm
            · exact .inr hsaved
          · exact .refl s id
        · exact commits_commit s hi

theorem commits_sync (s : Scope) (id : Nat) :
    Commits s id ((s.save id).1.toOption.getD false) (s.sync id).2 := by
  have hsave := commits_save s id
  simp only [sync]
  split
  next hresult =>
    rw [hresult] at hsave ⊢
    exact hsave
  next hresult =>
    rw [hresult] at hsave ⊢
    split
    · exact ⟨hsave.info, hsave.live, hsave.clean, hsave.dirty⟩
    · exact hsave

/-! ## The saver -/

/-- Slots and instances are the same. -/
structure SameInstances (s s' : Scope) : Prop where
  info : s'.source.info = s.source.info
  repo : s'.source.repo = s.source.repo
  instances : s'.instances = s.instances

theorem sameInstances_stepSaver (s : Scope) (step : Saver → Storage → Saver × Storage) :
    SameInstances s (s.stepSaver step) := by
  refine ⟨?_, repo_stepSaver s step, Cache.instances_stepSaver s step⟩
  cases hsaver : s.source.saver <;> simp [stepSaver, hsaver]

theorem sameInstances_syncAll (s : Scope) : SameInstances s s.syncAll.2 := by
  refine ⟨?_, repo_syncAll s, Cache.instances_syncAll s⟩
  cases hsaver : s.source.saver <;> simp [syncAll, hsaver]

theorem sameInstances_deliver (s : Scope) (n : Nat) (a : DeliveryStep) :
    SameInstances s (s.deliver n a) :=
  sameInstances_stepSaver s _

theorem sameInstances_close (s : Scope) : SameInstances s s.close := sameInstances_stepSaver s _

theorem sameInstances_elapse (s : Scope) : SameInstances s s.elapse := by
  rw [elapse]
  split
  · exact sameInstances_stepSaver s _
  · exact sameInstances_stepSaver s _

end Scope

end WriteBehind
