import WriteBehind.Proofs.Callbacks

/-!
# How instances and slots go on

Whatever is asked of a cache, instances stay and keep their type, none comes back once it has
expired, and slots come to lead only to instances that have not expired (`Cache.GoesOn`).

One might think that a slot leads to a record with the key of the slot.  That is so as long
as key fields are not modified, and what is fetched under a key decodes to a record with that
key: a fetch of one key caches under the key it was asked for, all others under the key of
the data.  `Cache.Continues` is a run of anything, in which keys may have to stay with their
records, and `Cache.Continues.own_key` says what the slots lead to in the end.
-/

namespace WriteBehind

/-! ## How instances and slots go on -/

/-- How an instance goes on: it keeps its type, and it does not come back once it has expired.
If keys stay with their records, it keeps its key as well. -/
structure Instance.GoesOn (orderly : Prop) (i i' : Instance) : Prop where
  type : i'.record.type = i.record.type
  expired : i.record.header.expired = true → i'.record.header.expired = true
  key : orderly → i'.record.key = i.record.key

section Instances

variable {orderly : Prop} {i i' i'' : Instance}

theorem Instance.GoesOn.refl (i : Instance) : i.GoesOn orderly i := ⟨rfl, id, fun _ => rfl⟩

theorem Instance.GoesOn.trans (h : i.GoesOn orderly i') (h' : i'.GoesOn orderly i'') :
    i.GoesOn orderly i'' :=
  ⟨h'.type.trans h.type, fun hexpired => h'.expired (h.expired hexpired),
    fun ho => (h'.key ho).trans (h.key ho)⟩

/-- A commit leaves data and flags alone. -/
theorem Instance.goesOn_committed (i : Instance) (place : Option Nat) :
    i.GoesOn orderly (i.committed place) := ⟨rfl, id, fun _ => rfl⟩

end Instances

namespace Scope

/-- What every operation on a source does: instances go on, and a slot comes to lead to an
instance only if that one has not expired.  If keys stay with their records, it is a record
of the source with the key of the slot. -/
structure GoesOn (orderly : Prop) (s s' : Scope) : Prop where
  info : s'.source.info = s.source.info
  kept : ∀ (id : Nat) (i : Instance), s.instances[id]? = some i →
    ∃ i', s'.instances[id]? = some i' ∧ i.GoesOn orderly i'
  live : ∀ key id, s'.source.repo.get key = some (.live id) →
    s.source.repo.get key = some (.live id) ∨
      (∀ i, s.instances[id]? = some i → i.record.header.expired = false) ∧
      ∃ i, s'.instances[id]? = some i ∧ (orderly → i.record.type = s.type ∧ i.record.key = key)

section GoesOn

variable {orderly : Prop} {s s' s'' : Scope} {id : Nat} {i i' : Instance} {key : Key}

theorem GoesOn.refl (s : Scope) : GoesOn orderly s s :=
  ⟨rfl, fun _ i hi => ⟨i, hi, .refl i⟩, fun _ _ hlive => .inl hlive⟩

theorem GoesOn.type_eq (h : GoesOn orderly s s') : s'.type = s.type :=
  congrArg (·.model.record) h.info

theorem GoesOn.trans (h : GoesOn orderly s s') (h' : GoesOn orderly s' s'') :
    GoesOn orderly s s'' := by
  have hkept : ∀ (id : Nat) (i : Instance), s.instances[id]? = some i →
      ∃ i', s''.instances[id]? = some i' ∧ i.GoesOn orderly i' := by
    intro id i hi
    obtain ⟨i', hi', hon⟩ := h.kept id i hi
    obtain ⟨i'', hi'', hon'⟩ := h'.kept id i' hi'
    exact ⟨i'', hi'', hon.trans hon'⟩
  refine ⟨h'.info.trans h.info, hkept, fun key id hlive => ?_⟩
  rcases h'.live key id hlive with hlive' | ⟨hfresh, i, hi, hown⟩
  · rcases h.live key id hlive' with hold | ⟨hfresh, i, hi, hown⟩
    · exact .inl hold
    · obtain ⟨i', hi', hon⟩ := h'.kept id i hi
      refine .inr ⟨hfresh, i', hi', fun ho => ?_⟩
      exact ⟨hon.type.trans (hown ho).1, (hon.key ho).trans (hown ho).2⟩
  · refine .inr ⟨fun x hx => ?_, i, hi, fun ho => ?_⟩
    · obtain ⟨x', hx', hon⟩ := h.kept id x hx
      by_contra hexpired
      have hgone := hon.expired (by simpa using hexpired)
      rw [hfresh x' hx'] at hgone
      cases hgone
    · exact ⟨(hown ho).1.trans h.type_eq, (hown ho).2⟩

/-- A step that fills no slot and leaves the instances alone. -/
theorem goesOn_of_source (s : Scope) {source : Source} {storage : Storage}
    (hinfo : source.info = s.source.info)
    (hlive : ∀ key id, source.repo.get key = some (.live id) →
      s.source.repo.get key = some (.live id)) :
    GoesOn orderly s ⟨source, s.instances, storage⟩ :=
  ⟨hinfo, fun _ i hi => ⟨i, hi, .refl i⟩, fun key id h => .inl (hlive key id h)⟩

theorem goesOn_addInstance (s : Scope) (i : Instance) : GoesOn orderly s (s.addInstance i).2 := by
  refine ⟨rfl, fun id x hx => ?_, fun _ _ hlive => .inl hlive⟩
  have hlt := (List.getElem?_eq_some_iff.mp hx).1
  exact ⟨x, by rw [addInstance, List.getElem?_append_left hlt, hx], .refl x⟩

theorem goesOn_setInstance (s : Scope) (hi : s.instances[id]? = some i)
    (hon : i.GoesOn orderly i') : GoesOn orderly s (s.setInstance id i') := by
  refine ⟨rfl, fun id' x hx => ?_, fun _ _ hlive => .inl hlive⟩
  by_cases hid : id = id'
  · subst hid
    obtain rfl := Option.some.inj (hi.symm.trans hx)
    have hlt := (List.getElem?_eq_some_iff.mp hi).1
    exact ⟨i', by rw [setInstance, List.getElem?_set_self hlt], hon⟩
  · exact ⟨x, by rw [setInstance, List.getElem?_set_ne hid, hx], .refl x⟩

theorem SameInstances.goesOn (h : SameInstances s s') : GoesOn orderly s s' := by
  refine ⟨h.info, fun id i hi => ⟨i, by rw [h.instances, hi], .refl i⟩, fun key id hlive => ?_⟩
  rw [h.repo] at hlive
  exact .inl hlive

/-! ### Fetches -/

/-- A publication, under the key of the data if that matters. -/
theorem goesOn_publish (s : Scope) (key : Key) {data : Option Json}
    (hkey : orderly → ∀ found, data = some found → s.type.keyOf found = key) :
    GoesOn orderly s (s.publish key data).2 := by
  cases hget : s.source.repo.get key with
  | some slot =>
      rw [publish_of_cached hget]
      exact .refl s
  | none =>
      cases data with
      | none =>
          rw [publish_of_absent hget]
          refine goesOn_of_source s rfl fun k id hlive => ?_
          rw [(Repo.get_setOnFetch_none hget k).2.2] at hlive
          split at hlive
          · cases hlive
          · exact hlive
      | some data =>
          rw [publish_of_found hget]
          have hadd : GoesOn orderly s (s.addInstance ⟨.load s.type data, [s.birth]⟩).2 :=
            goesOn_addInstance s _
          refine ⟨rfl, hadd.kept, fun k id hlive => ?_⟩
          rw [(Repo.get_setOnFetch_some hget s.instances.length k).2.2] at hlive
          split at hlive
          next hk =>
            obtain rfl : s.instances.length = id := by simpa using hlive
            refine .inr ⟨fun x hx => ?_, _, List.getElem?_concat_length, fun ho => ⟨rfl, ?_⟩⟩
            · rw [List.getElem?_eq_none (Nat.le_refl _)] at hx
              cases hx
            · rw [← hk]
              exact hkey ho data rfl
          · exact .inl hlive

theorem goesOn_publishRows (s : Scope) (rows : List Json) :
    GoesOn orderly s (s.publishRows rows).2 := by
  induction rows generalizing s with
  | nil => exact .refl s
  | cons data rows ih =>
      refine (goesOn_publish s _ fun _ found hfound => ?_).trans (ih _)
      rw [Option.some.inj hfound]

theorem goesOn_publishMissing (s : Scope) (keys : List Key) :
    GoesOn orderly s (s.publishMissing keys) := by
  induction keys generalizing s with
  | nil => exact .refl s
  | cons key keys ih =>
      refine (goesOn_publish s key fun _ found hfound => ?_).trans (ih _)
      cases hfound

/-- What stands under a key in the table is a record with that key, as far as it can be
read. -/
def FindsOwn (s : Scope) (key : Key) : Prop :=
  ∀ row data, (s.storage.rows s.source.table).get? key.text = some row →
    s.type.read (.ofDocument row) = .ok data → s.type.keyOf data = key

/-- Data that a fetch of a key gives are those of its row. -/
theorem read_of_fetch {data : Json}
    (h : (s.storage.fetch s.source.table true key.text).1.bind (firstData s.type) =
      .ok (some data)) :
    ∃ row, (s.storage.rows s.source.table).get? key.text = some row ∧
      s.type.read (.ofDocument row) = .ok data := by
  rcases Storage.fetch_cases s.storage s.source.table true key.text with ⟨e, he⟩ | hok
  · rw [he] at h
    cases h
  · rw [hok] at h
    cases hrow : (s.storage.rows s.source.table).get? key.text with
    | none =>
        have hnone := firstData_of_none s.type hrow
        rw [Except.bind, hnone] at h
        cases h
    | some row =>
        have hsome := firstData_of_some s.type hrow
        rw [Except.bind, hsome] at h
        cases hread : s.type.read (.ofDocument row) with
        | error e =>
            rw [hread] at h
            cases h
        | ok found =>
            rw [hread] at h
            obtain rfl : found = data := by simpa [Except.map] using h
            exact ⟨row, rfl, hread⟩

theorem goesOn_get (s : Scope)
    (hown : orderly → s.source.repo.get key = none → s.FindsOwn key) :
    GoesOn orderly s (s.get key).2 := by
  have hfetched : GoesOn orderly s (s.fetched key) := goesOn_of_source s rfl fun _ _ h => h
  cases hget : s.source.repo.get key with
  | some slot =>
      have hresult : s.get key = (.ok slot.live?, s) := by simp [get, hget]
      rw [hresult]
      exact .refl s
  | none =>
      cases hfetch : (s.storage.fetch s.source.table true key.text).1.bind (firstData s.type) with
      | error e =>
          rw [get_of_error hget hfetch]
          exact hfetched
      | ok data =>
          rw [get_of_ok hget hfetch]
          refine hfetched.trans (goesOn_publish (s.fetched key) key fun ho found hfound => ?_)
          obtain ⟨row, hrow, hread⟩ := read_of_fetch (hfound ▸ hfetch)
          exact hown ho hget row found hrow hread

theorem goesOn_find (s : Scope) (filter : Document) : GoesOn orderly s (s.find filter).2 := by
  have hsearched : GoesOn orderly s (s.searched filter) :=
    goesOn_of_source s rfl fun _ _ h => h
  simp only [find]
  split
  · exact hsearched
  · exact hsearched.trans (goesOn_publishRows (s.searched filter) _)

theorem goesOn_getMulti (s : Scope) (keys : List Key) :
    GoesOn orderly s (s.getMulti keys).2 := by
  have hfetched : ∀ keys, GoesOn orderly s (s.fetchedMulti keys) := fun keys =>
    goesOn_of_source s rfl fun _ _ h => h
  simp only [getMulti]
  split
  · exact .refl s
  · split
    · exact hfetched _
    · exact ((hfetched _).trans (goesOn_publishRows _ _)).trans (goesOn_publishMissing _ _)

/-! ### Creations and saves -/

/-- A stored instance takes the slot of its key. -/
theorem live_setOnStore_cases {r : Repo Key Nat} {key k : Key} {v id : Nat}
    (h : (r.setOnStore key v).2.get k = some (.live id)) :
    r.get k = some (.live id) ∨ key = k ∧ v = id := by
  by_cases hfree : ∀ v', r.get key ≠ some (.live v')
  · rw [(Repo.get_setOnStore_of_free hfree v k).2.2] at h
    split at h
    next hk => exact .inr ⟨hk, by simpa using h⟩
    · exact .inl h
  · simp only [ne_eq, not_forall, not_not] at hfree
    obtain ⟨v', hlive⟩ := hfree
    rw [Repo.setOnStore, hlive] at h
    exact .inl h

theorem goesOn_setOnStore (s : Scope) (hi : s.instances[id]? = some i)
    (hfresh : i.record.header.expired = false)
    (hown : orderly → i.record.type = s.type ∧ i.record.key = key) :
    GoesOn orderly s (s.setRepo (s.source.repo.setOnStore key id).2) := by
  refine ⟨rfl, fun _ x hx => ⟨x, hx, .refl x⟩, fun k id' hlive => ?_⟩
  rcases live_setOnStore_cases hlive with hold | ⟨rfl, rfl⟩
  · exact .inl hold
  · refine .inr ⟨fun x hx => ?_, i, hi, hown⟩
    obtain rfl := Option.some.inj (hi.symm.trans hx)
    exact hfresh

theorem goesOn_create (s : Scope) (data : Json) (flags : CreateFlags)
    (hown : orderly → flags.detached = false →
      s.source.repo.get (s.type.keyOf data) = none → s.FindsOwn (s.type.keyOf data)) :
    GoesOn orderly s (s.create data flags).2 := by
  simp only [create]
  split
  · exact goesOn_addInstance s _
  next hattached =>
    have hget : GoesOn orderly s (s.get (newRecord s.type data flags).key).2 :=
      goesOn_get s fun ho => hown ho (by simpa using hattached)
    split
    next hresult =>
      rw [hresult] at hget
      exact hget
    next hresult =>
      rw [hresult] at hget
      exact hget
    next s' hresult =>
      rw [hresult] at hget
      -- The slot leads to the new instance, which was not there before.
      have hadded := hget.trans (goesOn_addInstance s' ⟨newRecord s.type data flags, [.create]⟩)
      have hnew : (s'.addInstance ⟨newRecord s.type data flags, [.create]⟩).2.instances[
          s'.instances.length]? = some ⟨newRecord s.type data flags, [.create]⟩ :=
        List.getElem?_concat_length
      split
      · refine hadded.trans (goesOn_setOnStore _ hnew rfl fun _ => ?_)
        exact ⟨hadded.type_eq.symm, rfl⟩
      · exact hadded

/-- A commit fills no slot. -/
theorem live_of_commit {id' : Nat}
    (h : (s.commit id i).2.source.repo.get key = some (.live id')) :
    s.source.repo.get key = some (.live id') := by
  have hforget : ∀ s' : Scope, s'.source.repo = s.source.repo →
      (s'.source.repo.setOnDelete i.record.key id).2.get key = some (.live id') →
        s.source.repo.get key = some (.live id') := by
    intro s' hrepo hlive
    rw [(Repo.get_setOnDelete_any _ _ _ key).2, hrepo] at hlive
    split at hlive
    · split at hlive <;> cases hlive
    · exact hlive
  simp only [commit] at h
  cases hcommit : i.record.commit with
  | none =>
      simp only [hcommit] at h
      split at h
      · exact hforget s rfl h
      · exact h
  | some cr =>
      simp only [hcommit] at h
      split at h
      · exact hforget _ (repo_submit s id _ cr.1) h
      · rwa [repo_submit] at h

theorem goesOn_commit (s : Scope) (hi : s.instances[id]? = some i) :
    GoesOn orderly s (s.commit id i).2 := by
  have hcommits := commits_commit s hi
  refine ⟨hcommits.info, fun id' x hx => ?_, fun key id' hlive => .inl (live_of_commit hlive)⟩
  cases hdone : (s.commit id i).1 with
  | false => exact ⟨x, by rw [hcommits.clean hdone, hx], .refl x⟩
  | true =>
      obtain ⟨i', place, hi', -, hinstances⟩ := hcommits.dirty hdone
      have hset : GoesOn orderly s (s.setInstance id (i'.committed place)) :=
        goesOn_setInstance s hi' (i'.goesOn_committed place)
      rw [hinstances]
      exact hset.kept id' x hx

theorem goesOn_save (s : Scope)
    (htype : orderly → ∀ i, s.instances[id]? = some i → i.record.type = s.type) :
    GoesOn orderly s (s.save id).2 := by
  cases hi : s.instances[id]? with
  | none =>
      simp only [save, hi]
      exact .refl s
  | some i =>
      simp only [save, hi]
      split
      · exact .refl s
      next hfresh =>
        split
        · split
          · have hstored : GoesOn orderly s
                (s.setRepo (s.source.repo.setOnStore i.record.key id).2) :=
              goesOn_setOnStore s hi (by simpa using hfresh) fun ho => ⟨htype ho i hi, rfl⟩
            exact hstored.trans (goesOn_commit (s.setRepo _) hi)
          · exact .refl s
        · exact goesOn_commit s hi

theorem goesOn_sync (s : Scope)
    (htype : orderly → ∀ i, s.instances[id]? = some i → i.record.type = s.type) :
    GoesOn orderly s (s.sync id).2 := by
  have hsave := goesOn_save s htype
  simp only [sync]
  split
  next hresult =>
    rw [hresult] at hsave
    exact hsave
  next s' hresult =>
    rw [hresult] at hsave
    split
    · exact hsave.trans (goesOn_of_source s' rfl fun _ _ h => h)
    · exact hsave

theorem goesOn_expire (s : Scope) (key : Key) : GoesOn orderly s (s.expire key).2 := by
  have hrepo : GoesOn orderly s (s.setRepo (s.source.repo.expire key).2) := by
    refine goesOn_of_source s rfl fun k id hlive => ?_
    rw [(s.source.repo.get_expire key k).2.2] at hlive
    split at hlive
    · cases hlive
    · exact hlive
  cases hcached : (s.source.repo.expire key).1 with
  | none =>
      simp only [expire, hcached]
      exact hrepo
  | some id =>
      simp only [expire, hcached]
      cases hi : (s.setRepo (s.source.repo.expire key).2).instances[id]? with
      | none => exact hrepo
      | some i => exact hrepo.trans (goesOn_setInstance _ hi ⟨rfl, fun _ => rfl, fun _ => rfl⟩)

/-- An instance that a slot leads to has expired when its key has, and no slot that did not
lead to it before leads to it then. -/
theorem expired_of_expire (hlive : s.source.repo.get key = some (.live id))
    (hi : s.instances[id]? = some i) :
    (s.expire key).2.source.repo.get key = none ∧
      ∃ i', (s.expire key).2.instances[id]? = some i' ∧ i'.record.header.expired = true ∧
        i'.record.type = i.record.type ∧ i'.record.key = i.record.key := by
  have hexpire := s.source.repo.get_expire key key
  have hcached : (s.source.repo.expire key).1 = some id := by rw [hexpire.1, hlive]; rfl
  have hlt := (List.getElem?_eq_some_iff.mp hi).1
  have hi' : (s.setRepo (s.source.repo.expire key).2).instances[id]? = some i := hi
  have hslot : (s.source.repo.expire key).2.get key = none := by rw [hexpire.2.2, if_pos rfl]
  simp only [expire, hcached, hi']
  exact ⟨hslot, _, List.getElem?_set_self hlt, rfl, rfl, rfl⟩

end GoesOn

end Scope

/-! ## The cache -/

namespace Cache

variable {c c' c'' : Cache} {model : Model} {ns : String} {source : Source} {s : Scope}

/-- An operation that changes nothing. -/
theorem adopt_scope (hget : c.sources.get? ns = some source) : c.adopt ns (c.scope source) = c := by
  have hsources : c.sources.insert ns source = c.sources := by
    refine SortedMap.ext_get? fun ns' => ?_
    rw [SortedMap.get?_insert]
    split
    next heq => rw [← heq, hget]
    · rfl
  simp only [adopt, scope, hsources]

/-! ### How the cache goes on -/

/-- What everything that is asked of the cache does: instances go on, sources stay, and a
slot comes to lead to an instance only if that one has not expired.  If keys stay with their
records, it is a record of the source with the key of the slot. -/
structure GoesOn (orderly : Prop) (c c' : Cache) : Prop where
  kept : ∀ (id : Nat) (i : Instance), c.instances[id]? = some i →
    ∃ i', c'.instances[id]? = some i' ∧ i.GoesOn orderly i'
  origin : ∀ ns source', c'.sources.get? ns = some source' → ∃ source,
    c.sources.get? ns = some source ∧ source'.info = source.info ∧
      ∀ key id, source'.repo.get key = some (.live id) →
        source.repo.get key = some (.live id) ∨
          (∀ i, c.instances[id]? = some i → i.record.header.expired = false) ∧
          ∃ i, c'.instances[id]? = some i ∧
            (orderly → i.record.type = source.info.model.record ∧ i.record.key = key)

section GoesOn

variable {orderly : Prop}

theorem goesOn_of_instances (c : Cache) {instances : List Instance}
    (hkept : ∀ (id : Nat) (i : Instance), c.instances[id]? = some i →
      ∃ i', instances[id]? = some i' ∧ i.GoesOn orderly i') :
    GoesOn orderly c { c with instances } :=
  ⟨hkept, fun _ source hget => ⟨source, hget, rfl, fun _ _ hlive => .inl hlive⟩⟩

theorem GoesOn.refl (c : Cache) : GoesOn orderly c c :=
  goesOn_of_instances c fun _ i hi => ⟨i, hi, .refl i⟩

theorem GoesOn.trans (h : GoesOn orderly c c') (h' : GoesOn orderly c' c'') :
    GoesOn orderly c c'' := by
  refine ⟨fun id i hi => ?_, fun ns source'' hget'' => ?_⟩
  · obtain ⟨i', hi', hon⟩ := h.kept id i hi
    obtain ⟨i'', hi'', hon'⟩ := h'.kept id i' hi'
    exact ⟨i'', hi'', hon.trans hon'⟩
  · obtain ⟨source', hget', hinfo', hlive'⟩ := h'.origin ns source'' hget''
    obtain ⟨source, hget, hinfo, hlive⟩ := h.origin ns source' hget'
    refine ⟨source, hget, hinfo'.trans hinfo, fun key id hslot => ?_⟩
    rcases hlive' key id hslot with hslot' | ⟨hfresh, i, hi, hown⟩
    · rcases hlive key id hslot' with hold | ⟨hfresh, i, hi, hown⟩
      · exact .inl hold
      · obtain ⟨i', hi', hon⟩ := h'.kept id i hi
        refine .inr ⟨hfresh, i', hi', fun ho => ?_⟩
        exact ⟨hon.type.trans (hown ho).1, (hon.key ho).trans (hown ho).2⟩
    · refine .inr ⟨fun x hx => ?_, i, hi, fun ho => hinfo ▸ hown ho⟩
      obtain ⟨x', hx', hon⟩ := h.kept id x hx
      by_contra hexpired
      have hgone := hon.expired (by simpa using hexpired)
      rw [hfresh x' hx'] at hgone
      cases hgone

/-- An operation on one source leaves the slots of the others alone. -/
theorem goesOn_adopt (hget : c.sources.get? ns = some source)
    (h : Scope.GoesOn orderly (c.scope source) s) : GoesOn orderly c (c.adopt ns s) := by
  refine ⟨h.kept, fun ns' source' hget' => ?_⟩
  by_cases hns : ns = ns'
  · subst hns
    rw [get?_adopt_self, Option.some.injEq] at hget'
    subst hget'
    exact ⟨source, hget, h.info, h.live⟩
  · rw [get?_adopt_of_ne c s hns] at hget'
    exact ⟨source', hget', rfl, fun _ _ hlive => .inl hlive⟩

theorem goesOn_within {α : Type} {op : Scope → Except Error α × Scope}
    (hop : ∀ source, c.sources.get? model.record.ns = some source →
      (c.scope source).type = model.record →
        Scope.GoesOn orderly (c.scope source) (op (c.scope source)).2) :
    GoesOn orderly c (c.within model model.record.ns op).2 := by
  cases hsource : c.source model model.record.ns with
  | error e =>
      simp only [within, hsource]
      exact .refl c
  | ok source =>
      obtain ⟨hget, hmodel⟩ := source_eq_ok hsource
      simp only [within, hsource]
      exact goesOn_adopt hget (hop source hget (congrArg Model.record hmodel))

theorem goesOn_onSource {op : Scope → Scope} (hop : ∀ s, Scope.SameInstances s (op s))
    (c : Cache) (ns : String) : GoesOn orderly c (c.onSource ns op) := by
  cases hget : c.sources.get? ns with
  | none =>
      simp only [onSource, hget]
      exact .refl c
  | some source =>
      simp only [onSource, hget]
      exact goesOn_adopt hget (hop _).goesOn

theorem goesOn_setRecord {id : Nat} {i : Instance} {record : Record}
    (hi : c.instances[id]? = some i) (hon : i.GoesOn orderly { i with record }) :
    GoesOn orderly c (c.setRecord id record) := by
  refine goesOn_of_instances c fun id' x hx => ?_
  rw [List.getElem?_modify, hx]
  by_cases hid : id = id'
  · subst hid
    obtain rfl := Option.some.inj (hi.symm.trans hx)
    exact ⟨_, by simp, hon⟩
  · exact ⟨x, by simp [hid], .refl x⟩

theorem goesOn_addStray (c : Cache) (record : Record) :
    GoesOn orderly c (c.addStray record).2 := by
  refine goesOn_of_instances c fun id x hx => ?_
  have hlt := (List.getElem?_eq_some_iff.mp hx).1
  exact ⟨x, by rw [List.getElem?_append_left hlt, hx], .refl x⟩

theorem goesOn_syncNamespaces (nss : List String) (c : Cache) :
    GoesOn orderly c (syncNamespaces nss c).2 := by
  induction nss generalizing c with
  | nil => exact .refl c
  | cons ns rest ih =>
      cases hget : c.sources.get? ns with
      | none =>
          simp only [syncNamespaces, hget]
          exact ih c
      | some source =>
          have hadopt : GoesOn orderly c (c.adopt ns (c.scope source).syncAll.2) :=
            goesOn_adopt hget (Scope.sameInstances_syncAll _).goesOn
          cases hsync : (c.scope source).syncAll with
          | mk result s =>
              rw [hsync] at hadopt
              cases result with
              | error e =>
                  simp only [syncNamespaces, hget, hsync]
                  exact hadopt
              | ok u =>
                  simp only [syncNamespaces, hget, hsync]
                  exact hadopt.trans (ih _)

theorem goesOn_elapse (c : Cache) (milliseconds : Nat) :
    GoesOn orderly c (c.elapse milliseconds) := by
  refine List.foldlRecOn (motive := GoesOn orderly c) _ _ (.refl c) fun c' hc e _ => ?_
  obtain ⟨ns, source⟩ := e
  dsimp only
  split
  · exact hc.trans (goesOn_onSource Scope.sameInstances_elapse c' ns)
  · exact hc

theorem goesOn_stop (c : Cache) : GoesOn orderly c c.stop := by
  rw [stop]
  split
  · exact .refl c
  · have hclosed : GoesOn orderly c
        (c.namespaces.foldl (fun c ns => c.onSource ns Scope.close) c) :=
      List.foldlRecOn (motive := GoesOn orderly c) _ _ (.refl c) fun c' hc ns _ =>
        hc.trans (goesOn_onSource Scope.sameInstances_close c' ns)
    exact ⟨hclosed.kept, hclosed.origin⟩

/-! ### Requests -/

/-- If nothing is cached of a key, what stands under it in the table of a model is a record
with that key. -/
def FindsOwn (c : Cache) (model : Model) (key : Key) : Prop :=
  ∀ source, c.sources.get? model.record.ns = some source → source.repo.get key = none →
    (c.scope source).FindsOwn key

/-- Keys stay with their records in a call: key fields are not modified, a record is saved
as one of its own model, and what has to be fetched under a key has that key. -/
def InOrder (c : Cache) (model : Model) : SourceCall → Prop
  | .create data flags => flags.detached = false → c.FindsOwn model (model.record.keyOf data)
  | .get key => c.FindsOwn model key
  | .getByParts parts => ∀ key, model.record.key.ofParts model.record.ns parts = .ok key →
    c.FindsOwn model key
  | .edit id e => ∀ i, c.instances[id]? = some i → (i.record.edit e).key = i.record.key
  | .save id | .sync id => ∀ i, c.instances[id]? = some i → i.record.type = model.record
  | _ => True

theorem goesOn_request (c : Cache) (model : Model) {call : SourceCall}
    (horder : orderly → c.InOrder model call) : GoesOn orderly c (c.request model call) := by
  cases call with
  | create data flags =>
      refine goesOn_within fun source hget htype => Scope.goesOn_create _ data flags ?_
      rw [htype]
      exact fun ho hattached => horder ho hattached source hget
  | get key =>
      refine goesOn_within fun source hget _ => Scope.goesOn_get _ ?_
      exact fun ho => horder ho source hget
  | getByParts parts =>
      refine goesOn_within fun source hget _ => ?_
      cases hkey : model.record.key.ofParts model.record.ns parts with
      | error e => exact .refl _
      | ok key => exact Scope.goesOn_get _ fun ho => horder ho key hkey source hget
  | getMulti keys => exact goesOn_within fun source _ _ => Scope.goesOn_getMulti _ keys
  | find filter => exact goesOn_within fun source _ _ => Scope.goesOn_find _ filter
  | stray record => exact goesOn_addStray c record
  | edit id e =>
      cases hi : c.instances[id]? with
      | none =>
          have hresult : c.edit id e = c := by simp [edit, hi]
          rw [request, hresult]
          exact .refl c
      | some i =>
          obtain ⟨htype, hheader⟩ := i.record.edit_editsTo e
          simp only [request, edit, hi]
          refine goesOn_setRecord hi ⟨htype, fun hexpired => ?_, fun ho => horder ho i hi⟩
          rw [hheader.expired]
          exact hexpired
  | save id =>
      refine goesOn_within fun source _ htype => Scope.goesOn_save _ ?_
      rw [htype]
      exact horder
  | sync id =>
      refine goesOn_within fun source _ htype => Scope.goesOn_sync _ ?_
      rw [htype]
      exact horder
  | expire key => exact goesOn_within fun source _ _ => Scope.goesOn_expire _ key
  | syncAll => exact goesOn_onSource Scope.sameInstances_syncAll c _
  | deliver n a => exact goesOn_onSource (fun s => s.sameInstances_deliver n a) c _
  | elapse => exact goesOn_onSource Scope.sameInstances_elapse c _
  | close => exact goesOn_onSource Scope.sameInstances_close c _

/-! ### Runs -/

/-- A cache in use since some point: calls for any of its sources, and for all of them, and
changes to the header of a record, none of which lifts an expiry.  Keys may have to stay
with their records. -/
inductive Continues (orderly : Prop) (c : Cache) : Cache → Prop
  | start : Continues orderly c c
  | request {c' : Cache} (h : Continues orderly c c') (model : Model) {call : SourceCall}
      (horder : orderly → c'.InOrder model call) : Continues orderly c (c'.request model call)
  | header {c' : Cache} (h : Continues orderly c c') {id : Nat} {i : Instance}
      (hi : c'.instances[id]? = some i) (header : Header)
      (hexpired : i.record.header.expired = true → header.expired = true) :
      Continues orderly c (c'.setRecord id { i.record with header })
  | syncAll {c' : Cache} (h : Continues orderly c c') : Continues orderly c c'.syncAll.2
  | elapse {c' : Cache} (h : Continues orderly c c') (milliseconds : Nat) :
      Continues orderly c (c'.elapse milliseconds)
  | stop {c' : Cache} (h : Continues orderly c c') : Continues orderly c c'.stop

theorem Continues.goesOn (h : c.Continues orderly c') : GoesOn orderly c c' := by
  induction h with
  | start => exact .refl c
  | request _ model horder ih => exact ih.trans (goesOn_request _ model horder)
  | header _ hi header hexpired ih =>
      exact ih.trans (goesOn_setRecord hi ⟨rfl, hexpired, fun _ => rfl⟩)
  | syncAll _ ih => exact ih.trans (goesOn_syncNamespaces _ _)
  | elapse _ milliseconds ih => exact ih.trans (goesOn_elapse _ milliseconds)
  | stop _ ih => exact ih.trans (goesOn_stop _)

/-- An instance that has expired is gone for good: it has expired ever after, its saves do
nothing, and the slots that lead to it have led to it all along. -/
theorem Continues.expired {id : Nat} {i : Instance} (h : c.Continues orderly c')
    (hi : c.instances[id]? = some i) (hexpired : i.record.header.expired = true) :
    (∃ i', c'.instances[id]? = some i' ∧ i'.record.header.expired = true) ∧
      ∀ ns source' key, c'.sources.get? ns = some source' →
        source'.repo.get key = some (.live id) → ∃ source, c.sources.get? ns = some source ∧
          source.repo.get key = some (.live id) := by
  obtain ⟨i', hi', hon⟩ := h.goesOn.kept id i hi
  refine ⟨⟨i', hi', hon.expired hexpired⟩, fun ns source' key hget' hslot => ?_⟩
  obtain ⟨source, hget, -, hlive⟩ := h.goesOn.origin ns source' hget'
  rcases hlive key id hslot with hold | ⟨hfresh, -⟩
  · exact ⟨source, hget, hold⟩
  · rw [hfresh i hi] at hexpired
    cases hexpired

end GoesOn

/-! ### After a setup -/

section Setups

variable {r : Registry} {config : Configurator} {journal : Journal} {storage : Storage}
  {start : Cache} {orderly : Prop}

theorem ns_of_startSources {dryRun : Bool} {tables : SortedMap TableRef} {plans : List SourcePlan}
    {sources : SortedMap Source} (h : startSources dryRun tables plans = .ok sources)
    (hget : sources.get? ns = some source) : source.info.ns = ns := by
  induction plans generalizing sources with
  | nil =>
      obtain rfl := Except.ok.inj h
      cases hget
  | cons p plans ih =>
      rw [startSources] at h
      split at h
      next own others hown hothers =>
        obtain rfl := Except.ok.inj h
        rw [SortedMap.get?_insert] at hget
        split at hget
        next hns =>
          rw [← Option.some.inj hget, (startSource_eq_ok hown).1]
          exact hns
        · exact ih hothers hget
      · cases h
      · cases h

/-- A slot in a cache that was set up leads to an instance.  If keys have stayed with their
records, it is a record of the source with the key of the slot. -/
theorem Continues.own_key (h : start.Continues orderly c)
    (hsetup : setup r config journal storage = .ok start)
    (hget : c.sources.get? ns = some source) {key : Key} {id : Nat}
    (hlive : source.repo.get key = some (.live id)) :
    source.info.ns = ns ∧ ∃ i, c.instances[id]? = some i ∧
      (orderly → i.record.type = source.info.model.record ∧ i.record.key = key) := by
  obtain ⟨plan, final, hbuilt⟩ := exists_built hsetup
  obtain ⟨source₀, hget₀, hinfo, hslots⟩ := h.goesOn.origin ns source hget
  refine ⟨hinfo ▸ ns_of_startSources hbuilt.started hget₀, ?_⟩
  rcases hslots key id hlive with hold | ⟨-, i, hi, hown⟩
  · obtain ⟨p, hstart⟩ := Annals.exists_plan_of_get? hbuilt.started hget₀
    rw [(Repo.get_of_create (startSource_eq_ok hstart).2.1 key).2] at hold
    cases hold
  · exact ⟨i, hi, hinfo ▸ hown⟩

end Setups

end Cache

end WriteBehind
