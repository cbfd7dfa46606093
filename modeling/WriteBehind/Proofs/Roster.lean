import WriteBehind.Proofs.CacheRequests

/-!
# Slots and instances

However a source caches, and whatever is pending, its slots and its instances belong
together: the live slot of a key leads to an instance of the key, and every other instance
of the key is gone or has expired (`Roster`).  Fetching, creating, editing, saving and
expiring keep that.  So an instance that can still be saved is the live one of its key, and
a save that finds it gone takes it out of its slot (`Roster.save`).
-/

namespace WriteBehind

/-- An instance of the records that has not expired. -/
structure Instance.Counts (p : Deposit) (i : Instance) : Prop where
  type : i.record.type = p.type
  known : i.record.header.expired = false

/-- What holds of every instance that counts. -/
structure Instance.Member (p : Deposit) (i : Instance) : Prop extends i.Counts p where
  holds : p.type.Holds i.record.data
  used : p.inUse i.record.key
  attached : i.record.header.detached = false
  settled : i.record.lifecycle = .unavailable → i.record.header.dirty = false
  marked : i.record.lifecycle = .deleted → i.record.header.dirty = true

/-- Slots and instances of the records. -/
structure Roster (p : Deposit) (repo : Repo Key Nat) (instances : List Instance) : Prop where
  members : ∀ (id : Nat) (i : Instance), instances[id]? = some i → i.Counts p → i.Member p
  live : ∀ key id, p.inUse key → repo.get key = some (.live id) →
    ∃ i, instances[id]? = some i ∧ i.Counts p ∧ i.record.key = key
  gone : ∀ (id : Nat) (i : Instance), instances[id]? = some i → i.Counts p →
    repo.get i.record.key ≠ some (.live id) → i.record.lifecycle = .unavailable

section Roster

variable {p : Deposit} {repo repo' : Repo Key Nat} {instances : List Instance} {key : Key}
  {id : Nat} {i i' : Instance}

/-! ## Single changes -/

/-- Only live slots and the instances of the records count. -/
theorem Roster.congr (h : Roster p repo instances) {instances' : List Instance}
    (hlive : ∀ key id, p.inUse key →
      (repo'.get key = some (.live id) ↔ repo.get key = some (.live id)))
    (hsame : ∀ (id : Nat) (i : Instance), i.Counts p →
      (instances'[id]? = some i ↔ instances[id]? = some i)) :
    Roster p repo' instances' := by
  refine ⟨?_, ?_, ?_⟩
  · intro id i hi hcounts
    exact h.members id i ((hsame id i hcounts).mp hi) hcounts
  · intro key id hused hget
    obtain ⟨i, hi, hcounts, hkey⟩ := h.live key id hused ((hlive key id hused).mp hget)
    exact ⟨i, (hsame id i hcounts).mpr hi, hcounts, hkey⟩
  · intro id i hi hcounts hnot
    have hi' := (hsame id i hcounts).mp hi
    refine h.gone id i hi' hcounts fun hget => hnot ?_
    exact (hlive _ id (h.members id i hi' hcounts).used).mpr hget

/-- There is nothing before anything was fetched or created. -/
theorem Roster.of_fresh (hfresh : instances = []) (hempty : ∀ key, repo.get key = none) :
    Roster p repo instances := by
  subst hfresh
  refine ⟨?_, ?_, ?_⟩
  · intro id i hi
    cases hi
  · intro key id _ hlive
    rw [hempty key] at hlive
    cases hlive
  · intro id i hi
    cases hi

/-- Two live slots do not share an instance. -/
theorem Roster.key_unique (h : Roster p repo instances) {key' : Key} (hused : p.inUse key)
    (hused' : p.inUse key') (hget : repo.get key = some (.live id))
    (hget' : repo.get key' = some (.live id)) : key = key' := by
  obtain ⟨i, hi, -, hkey⟩ := h.live key id hused hget
  obtain ⟨i', hi', -, hkey'⟩ := h.live key' id hused' hget'
  rw [hi, Option.some.injEq] at hi'
  rw [← hkey, ← hkey', hi']

/-- An instance that a slot leads to is the live one of its own key. -/
theorem Roster.live_of_slot (h : Roster p repo instances) (hused : p.inUse key)
    (hlive : repo.get key = some (.live id)) (hi : instances[id]? = some i) :
    repo.get i.record.key = some (.live id) := by
  obtain ⟨i', hi', -, hkey⟩ := h.live key id hused hlive
  obtain rfl : i = i' := Option.some.inj (hi.symm.trans hi')
  rw [hkey]
  exact hlive

/-- An instance with changes is the live one of its key. -/
theorem Roster.live_of_dirty (h : Roster p repo instances) (hi : instances[id]? = some i)
    (hcounts : i.Counts p) (hdirty : i.record.header.dirty = true) :
    repo.get i.record.key = some (.live id) := by
  refine Classical.byContradiction fun hnot => ?_
  rw [(h.members id i hi hcounts).settled (h.gone id i hi hcounts hnot)] at hdirty
  cases hdirty

/-- The ones of some live instances that have a key are its live instance. -/
theorem Roster.live_of_ofKey (h : Roster p repo instances) {c : Cache} {ids : List Nat}
    (hinstances : c.instances = instances)
    (hlive : ∀ id ∈ ids, ∃ key, p.inUse key ∧ repo.get key = some (.live id))
    (hid : id ∈ c.ofKey key ids) : repo.get key = some (.live id) := by
  obtain ⟨hin, hany⟩ := List.mem_filter.mp hid
  rw [hinstances] at hany
  cases hi : instances[id]? with
  | none =>
      rw [hi] at hany
      cases hany
  | some i =>
      rw [hi] at hany
      obtain rfl : i.record.key = key := by simpa using hany
      obtain ⟨key', hused, hget⟩ := hlive id hin
      exact h.live_of_slot hused hget hi

theorem Roster.lt_of_live (h : Roster p repo instances) (hused : p.inUse key)
    (hget : repo.get key = some (.live id)) : id < instances.length := by
  obtain ⟨i, hi, -⟩ := h.live key id hused hget
  exact (List.getElem?_eq_some_iff.mp hi).1

/-- A new instance takes the slot of a key that is free. -/
theorem Roster.add (h : Roster p repo instances) (hi : i.Member p)
    (hfree : ∀ id, repo.get i.record.key ≠ some (.live id))
    (hget : ∀ k, repo'.get k =
      if i.record.key = k then some (.live instances.length) else repo.get k) :
    Roster p repo' (instances ++ [i]) := by
  have hold : ∀ {id : Nat} {x : Instance}, (instances ++ [i])[id]? = some x →
      id = instances.length ∧ x = i ∨ id < instances.length ∧ instances[id]? = some x := by
    intro id x hx
    by_cases hlt : id < instances.length
    · rw [List.getElem?_append_left hlt] at hx
      exact .inr ⟨hlt, hx⟩
    · rw [List.getElem?_append_right (Nat.le_of_not_lt hlt)] at hx
      have hone : id - instances.length = 0 := by
        have hlen := (List.getElem?_eq_some_iff.mp hx).1
        simpa using hlen
      rw [hone] at hx
      exact .inl ⟨by omega, (Option.some.inj hx).symm⟩
  refine ⟨?_, ?_, ?_⟩
  · intro id x hx hx'
    rcases hold hx with ⟨-, rfl⟩ | ⟨-, hx⟩
    · exact hi
    · exact h.members id x hx hx'
  · intro key id hused hlive
    rw [hget] at hlive
    split at hlive
    next hkey =>
      obtain rfl : instances.length = id := by simpa using hlive
      exact ⟨i, by simp, hi.toCounts, hkey⟩
    · obtain ⟨x, hx, hx', hkey⟩ := h.live key id hused hlive
      have hlt : id < instances.length := (List.getElem?_eq_some_iff.mp hx).1
      exact ⟨x, by rw [List.getElem?_append_left hlt]; exact hx, hx', hkey⟩
  · intro id x hx hx' hnot
    rw [hget] at hnot
    rcases hold hx with ⟨rfl, rfl⟩ | ⟨-, hx⟩
    · simp at hnot
    · refine h.gone id x hx hx' fun hlive => ?_
      split at hnot
      next hkey => exact hfree id (by rw [hkey]; exact hlive)
      · exact hnot hlive

/-- An instance is changed, but not its key, and it stays gone. -/
theorem Roster.set (h : Roster p repo instances) (hi : instances[id]? = some i)
    (hcounts : i.Counts p) (hi' : i'.Member p) (hkey : i'.record.key = i.record.key)
    (hgone : i.record.lifecycle = .unavailable → i'.record.lifecycle = .unavailable) :
    Roster p repo (instances.set id i') := by
  have hlt : id < instances.length := (List.getElem?_eq_some_iff.mp hi).1
  have hself : (instances.set id i')[id]? = some i' := List.getElem?_set_self hlt
  refine ⟨?_, ?_, ?_⟩
  · intro id' x hx hx'
    by_cases hid : id = id'
    · subst hid
      rw [hself, Option.some.injEq] at hx
      exact hx ▸ hi'
    · rw [List.getElem?_set_ne hid] at hx
      exact h.members id' x hx hx'
  · intro key id' hused hlive
    obtain ⟨x, hx, hx', hxkey⟩ := h.live key id' hused hlive
    by_cases hid : id = id'
    · subst hid
      rw [hi, Option.some.injEq] at hx
      exact ⟨i', hself, hi'.toCounts, hkey.trans (hx ▸ hxkey)⟩
    · exact ⟨x, by rw [List.getElem?_set_ne hid]; exact hx, hx', hxkey⟩
  · intro id' x hx hx' hnot
    by_cases hid : id = id'
    · subst hid
      rw [hself, Option.some.injEq] at hx
      subst hx
      rw [hkey] at hnot
      exact hgone (h.gone id i hi hcounts hnot)
    · rw [List.getElem?_set_ne hid] at hx
      exact h.gone id' x hx hx' hnot

/-- An instance that does not count is changed, and still does not count. -/
theorem Roster.set_of_not_counts (h : Roster p repo instances) (hi : instances[id]? = some i)
    (hno : ¬ i.Counts p) (hno' : ¬ i'.Counts p) : Roster p repo (instances.set id i') := by
  refine h.congr (fun _ _ _ => .rfl) fun id' x hcounts => ?_
  by_cases hid : id = id'
  · subst hid
    rw [List.getElem?_set_self (List.getElem?_eq_some_iff.mp hi).1, hi]
    constructor
    · rintro ⟨⟩
      exact absurd hcounts hno'
    · rintro ⟨⟩
      exact absurd hcounts hno
  · rw [List.getElem?_set_ne hid]

/-- A key loses its slot, and its live instance does not count any more. -/
theorem Roster.evict (h : Roster p repo instances) (hused : p.inUse key)
    {instances' : List Instance}
    (hslot : ∀ k, repo'.get k = if key = k then none else repo.get k)
    (hsame : ∀ (id : Nat) (i : Instance), i.Counts p →
      (instances'[id]? = some i ↔ instances[id]? = some i ∧ repo.get key ≠ some (.live id))) :
    Roster p repo' instances' := by
  refine ⟨?_, ?_, ?_⟩
  · intro id i hi hcounts
    exact h.members id i ((hsame id i hcounts).mp hi).1 hcounts
  · intro k id hk hlive
    rw [hslot] at hlive
    split at hlive
    · cases hlive
    next hne =>
      obtain ⟨i, hi, hcounts, hkey⟩ := h.live k id hk hlive
      refine ⟨i, (hsame id i hcounts).mpr ⟨hi, fun hother => hne ?_⟩, hcounts, hkey⟩
      exact h.key_unique hused hk hother hlive
  · intro id i hi hcounts hnot
    obtain ⟨hi', hother⟩ := (hsame id i hcounts).mp hi
    refine h.gone id i hi' hcounts fun hlive => hnot ?_
    rw [hslot, if_neg]
    · exact hlive
    · intro heq
      exact hother (heq ▸ hlive)

/-- An instance that is gone loses its slot. -/
theorem Roster.forget (h : Roster p repo instances) (hi : instances[id]? = some i)
    (hgone : i.record.lifecycle = .unavailable) :
    Roster p (repo.setOnDelete i.record.key id).2 instances := by
  have hslot := fun k => (repo.get_setOnDelete_any i.record.key id k).2
  have hlive : ∀ k id', (repo.setOnDelete i.record.key id).2.get k = some (.live id') →
      repo.get k = some (.live id') := by
    intro k id' hget
    rw [hslot] at hget
    split at hget
    · split at hget <;> simp at hget
    · exact hget
  refine ⟨h.members, fun key id' hused hget => h.live key id' hused (hlive key id' hget), ?_⟩
  intro id' x hx hx' hnot
  by_cases hthis : repo.get i.record.key = some (.live id) ∧ i.record.key = x.record.key
  · by_cases hid : id' = id
    · subst hid
      rw [hi, Option.some.injEq] at hx
      exact hx ▸ hgone
    · refine h.gone id' x hx hx' fun hget => hid ?_
      rw [← hthis.2, hthis.1] at hget
      simpa using hget.symm
  · rw [hslot, if_neg hthis] at hnot
    exact h.gone id' x hx hx' hnot

/-! ## Fetching, creating and editing -/

/-- A record that was read from storage. -/
theorem Instance.member_load {data : Json} (hdata : p.type.Holds data)
    (hused : p.inUse (p.type.keyOf data)) (events : List Event) :
    (⟨.load p.type data, events⟩ : Instance).Member p :=
  ⟨⟨rfl, rfl⟩, hdata, hused, rfl, (fun hgone => by cases hgone), fun hgone => by cases hgone⟩

/-- A new record. -/
theorem Instance.member_new {data : Json} (hdata : p.type.Holds data)
    (hused : p.inUse (p.type.keyOf data)) (tmp : Bool) (events : List Event) :
    (⟨Scope.newRecord p.type data { tmp }, events⟩ : Instance).Member p :=
  ⟨⟨rfl, rfl⟩, hdata, hused, rfl, (fun hgone => by cases hgone), fun hgone => by cases hgone⟩

theorem Roster.publish {s : Scope} (h : Roster p s.source.repo s.instances)
    (htype : s.type = p.type) {data : Option Json} (hfinds : p.Finds s.storage key data) :
    Roster p (s.publish key data).2.source.repo (s.publish key data).2.instances := by
  cases hget : s.source.repo.get key with
  | some slot =>
      rw [Scope.publish_of_cached hget]
      exact h
  | none =>
      cases data with
      | none =>
          rw [Scope.publish_of_absent hget]
          refine h.congr (fun k id _ => ?_) fun _ _ _ => .rfl
          simp only [Scope.setRepo, (Repo.get_setOnFetch_none hget k).2.2]
          split
          next hkey => simp [← hkey.2, hget]
          · exact .rfl
      | some data =>
          obtain ⟨hused, hdata, hkey, -⟩ := hfinds
          rw [Scope.publish_of_found hget, htype]
          refine h.add (Instance.member_load hdata (hkey ▸ hused) _) ?_ fun k => ?_
          · intro id hlive
            have hlive' : s.source.repo.get (p.type.keyOf data) = some (.live id) := hlive
            rw [hkey, hget] at hlive'
            cases hlive'
          · have hkey' : (Record.load p.type data).key = key := hkey
            rw [hkey']
            exact (Repo.get_setOnFetch_some hget s.instances.length k).2.2

theorem Roster.edit (h : Roster p repo instances) (hi : instances[id]? = some i)
    (hcounts : i.Counts p) (e : Edit) (hholds : p.type.Holds (i.record.edit e).data)
    (hkey : (i.record.edit e).key = i.record.key) :
    Roster p repo (instances.set id { i with record := i.record.edit e }) := by
  have hmember := h.members id i hi hcounts
  obtain ⟨hsame, hedit⟩ := i.record.edit_editsTo e
  have hcounts' : Instance.Counts p { i with record := i.record.edit e } :=
    ⟨hsame.trans hcounts.type, hedit.expired.trans hcounts.known⟩
  refine h.set hi hcounts ⟨hcounts', hholds, ?_, ?_, ?_, ?_⟩ hkey ?_
  · rw [hkey]
    exact hmember.used
  · rw [hedit.detached]
    exact hmember.attached
  · intro hgone
    rcases hedit.stage with ⟨hlife, hdirty⟩ | ⟨-, -, hclean⟩ | ⟨-, hdeleted⟩
    · have hgone' : i.record.header.lifecycle = .unavailable := hlife.symm.trans hgone
      rw [hdirty hgone']
      exact hmember.settled hgone'
    · exact hclean
    · rw [Record.lifecycle, hdeleted] at hgone
      cases hgone
  · exact Record.dirty_of_edit hmember.marked e
  · intro hgone
    rcases hedit.stage with ⟨hlife, -⟩ | ⟨-, hgone', -⟩ | ⟨hnormal, -⟩
    · exact hlife.trans hgone
    · exact hgone'
    · rw [Record.lifecycle, hnormal] at hgone
      cases hgone

end Roster

/-! ## Saving -/

namespace Scope

variable {p : Deposit} {s : Scope} {id : Nat} {i : Instance}

/-- The scope after the commitment of an instance was handed to the saver, if there was
something to commit. -/
def submitted (s : Scope) (id : Nat) (i : Instance) : Scope :=
  match i.record.commit with
  | none => s
  | some (c, record) => s.submit id ⟨record, i.events ++ committedEvent c⟩ c

theorem commit_eq (hi : i.Member p) (s : Scope) (id : Nat) :
    s.commit id i = (i.record.header.dirty,
      if i.record.lifecycle.isGone then
        (s.submitted id i).setRepo
          ((s.submitted id i).source.repo.setOnDelete i.record.key id).2
      else s.submitted id i) := by
  cases hdirty : i.record.header.dirty with
  | false =>
      have hcommit := Record.commit_of_clean hdirty
      have hgone : i.record.lifecycle.isGone = decide (i.record.lifecycle = .unavailable) := by
        cases hl : i.record.lifecycle with
        | deleted =>
            rw [hi.marked hl] at hdirty
            cases hdirty
        | new | normal | unavailable => rfl
      simp only [commit, submitted, hcommit, hi.attached, hgone, Bool.not_false, Bool.true_and]
      split <;> rfl
  | true =>
      have hcommit := Record.commit_of_dirty hdirty
      have hgone : i.record.lifecycle.isGone =
          decide (Header.committedLifecycle i.record.lifecycle = .unavailable) := by
        cases hl : i.record.lifecycle with
        | unavailable =>
            rw [hi.settled hl] at hdirty
            cases hdirty
        | new | normal | deleted => rfl
      have hafter : ({ i.record with header := i.record.header.beginCommit.finishCommit } :
          Record).lifecycle = Header.committedLifecycle i.record.lifecycle := rfl
      simp only [commit, submitted, hcommit, hi.attached, hgone, Bool.not_false, Bool.true_and,
        hafter]
      split <;> rfl

theorem repo_submit (s : Scope) (id : Nat) (i : Instance) (c : Snapshot) :
    (s.submit id i c).source.repo = s.source.repo := by
  cases hsaver : s.source.saver <;> simp [submit, hsaver, setInstance]

theorem repo_submitted (s : Scope) (id : Nat) (i : Instance) :
    (s.submitted id i).source.repo = s.source.repo := by
  cases hcommit : i.record.commit with
  | none => simp only [submitted, hcommit]
  | some r =>
      simp only [submitted, hcommit]
      exact repo_submit s id _ _

theorem exists_instances_submit (s : Scope) (id : Nat) (i : Instance) (c : Snapshot) :
    ∃ place, (s.submit id i c).instances = s.instances.set id
      { i with record := { i.record with header := i.record.header.setSavingIndex place } } := by
  cases hsaver : s.source.saver with
  | none =>
      simp only [submit, hsaver, setInstance]
      exact ⟨i.record.header.savingIndex, rfl⟩
  | some saver =>
      simp only [submit, hsaver, setInstance]
      exact ⟨_, rfl⟩

/-- A commit leaves type and data of its instance alone, and nothing is left to commit. -/
theorem exists_instances_submitted (hi : i.Member p) (hget : s.instances[id]? = some i) :
    ∃ i', (s.submitted id i).instances = s.instances.set id i' ∧ i'.Member p ∧
      i'.record.key = i.record.key ∧
      (i.record.lifecycle.isGone = true → i'.record.lifecycle = .unavailable) := by
  cases hdirty : i.record.header.dirty with
  | false =>
      have hcommit := Record.commit_of_clean hdirty
      have hset : s.instances.set id i = s.instances := by
        refine List.ext_getElem? fun n => ?_
        by_cases hn : id = n
        · subst hn
          rw [List.getElem?_set_self (List.getElem?_eq_some_iff.mp hget).1, hget]
        · rw [List.getElem?_set_ne hn]
      refine ⟨i, by rw [submitted, hcommit, hset], hi, rfl, fun hgone => ?_⟩
      cases hl : i.record.lifecycle with
      | deleted =>
          rw [hi.marked hl] at hdirty
          cases hdirty
      | unavailable => rfl
      | new | normal =>
          rw [hl] at hgone
          cases hgone
  | true =>
      have hcommit := Record.commit_of_dirty hdirty
      simp only [submitted, hcommit]
      obtain ⟨place, hinstances⟩ := exists_instances_submit s id
        ⟨{ i.record with header := i.record.header.beginCommit.finishCommit },
          i.events ++ committedEvent ⟨i.record.type, i.record.key, i.record.header.toPending,
            i.record.version, i.record.data⟩⟩
        ⟨i.record.type, i.record.key, i.record.header.toPending, i.record.version, i.record.data⟩
      refine ⟨_, hinstances,
        ⟨⟨hi.type, hi.known⟩, hi.holds, hi.used, hi.attached, fun _ => rfl, ?_⟩, rfl,
        fun hgone => ?_⟩
      · intro hdeleted
        have hlife : Header.committedLifecycle i.record.lifecycle = .deleted := hdeleted
        cases hl : i.record.lifecycle <;> rw [hl] at hlife <;> cases hlife
      · have hlife : Header.committedLifecycle i.record.lifecycle = .unavailable := by
          cases hl : i.record.lifecycle with
          | deleted | unavailable => rfl
          | new | normal =>
              rw [hl] at hgone
              cases hgone
        exact hlife

end Scope

section Saves

variable {p : Deposit} {s : Scope} {id : Nat} {i : Instance}

theorem Roster.submitted (h : Roster p s.source.repo s.instances)
    (hi : s.instances[id]? = some i) (hcounts : i.Counts p) :
    Roster p (s.submitted id i).source.repo (s.submitted id i).instances := by
  obtain ⟨i', hinstances, hmember, hkey, hgone⟩ :=
    Scope.exists_instances_submitted (h.members id i hi hcounts) hi
  rw [Scope.repo_submitted, hinstances]
  refine h.set hi hcounts hmember hkey fun hlost => hgone ?_
  rw [hlost]
  rfl

/-- A save of an instance is its commit: one that is stored has its slot already. -/
theorem Roster.save_eq_commit (h : Roster p s.source.repo s.instances)
    (hi : s.instances[id]? = some i) (hcounts : i.Counts p) :
    s.save id = (.ok (s.commit id i).1, (s.commit id i).2) := by
  have hmember := h.members id i hi hcounts
  by_cases hnormal : i.record.header.lifecycle = .normal
  · have hlive : s.source.repo.get i.record.key = some (.live id) := by
      refine Classical.byContradiction fun hnot => ?_
      have hgone := h.gone id i hi hcounts hnot
      rw [Record.lifecycle, hnormal] at hgone
      cases hgone
    have hrepo : s.setRepo s.source.repo = s := rfl
    simp [Scope.save, hi, hmember.known, hmember.attached, hnormal,
      Repo.setOnStore_of_live hlive, hrepo]
  · simp [Scope.save, hi, hmember.known, hnormal]

/-- A save touches its instance alone, whose type and key stay. -/
theorem Roster.instances_save (h : Roster p s.source.repo s.instances)
    (hi : s.instances[id]? = some i) (hcounts : i.Counts p) :
    ∃ i', (s.save id).2.instances = s.instances.set id i' ∧ i'.Member p ∧
      i'.record.key = i.record.key ∧
      (i.record.lifecycle.isGone = true → i'.record.lifecycle = .unavailable) := by
  have hmember := h.members id i hi hcounts
  rw [h.save_eq_commit hi hcounts, Scope.commit_eq hmember]
  obtain ⟨i', hinstances, hi'⟩ := Scope.exists_instances_submitted hmember hi
  refine ⟨i', ?_, hi'⟩
  dsimp only
  split
  · exact hinstances
  · exact hinstances

/-- An instance is saved.  One that is gone loses its slot, and nothing else happens to the
slots. -/
theorem Roster.save (h : Roster p s.source.repo s.instances) (hi : s.instances[id]? = some i)
    (hcounts : i.Counts p) :
    Roster p (s.save id).2.source.repo (s.save id).2.instances ∧
      (s.save id).1 = .ok i.record.header.dirty ∧
      (s.save id).2.source.repo.volatile = s.source.repo.volatile ∧
      ∀ key, (s.save id).2.source.repo.get key =
        if i.record.lifecycle.isGone = true ∧ s.source.repo.get i.record.key = some (.live id) ∧
            i.record.key = key then
          if s.source.repo.volatile then none else some .missing
        else s.source.repo.get key := by
  have hmember := h.members id i hi hcounts
  have hsubmitted := h.submitted hi hcounts
  rw [h.save_eq_commit hi hcounts, Scope.commit_eq hmember]
  cases hgone : i.record.lifecycle.isGone with
  | false =>
      simp only [Bool.false_eq_true, if_false, false_and]
      exact ⟨hsubmitted, trivial, by rw [Scope.repo_submitted],
        fun key => by rw [Scope.repo_submitted]⟩
  | true =>
      simp only [if_true, true_and]
      have hrepo := s.repo_submitted id i
      obtain ⟨i', hinstances, -, hkey', hlost⟩ :=
        Scope.exists_instances_submitted hmember hi
      have hself : (s.submitted id i).instances[id]? = some i' := by
        rw [hinstances]
        exact List.getElem?_set_self (List.getElem?_eq_some_iff.mp hi).1
      have hforget := hsubmitted.forget hself (hlost hgone)
      rw [hkey'] at hforget
      refine ⟨hforget, ?_, fun key => ?_⟩
      · simp only [Scope.setRepo, hrepo]
        exact (s.source.repo.get_setOnDelete_any i.record.key id i.record.key).1
      · simp only [Scope.setRepo, hrepo]
        exact (s.source.repo.get_setOnDelete_any i.record.key id key).2

end Saves

/-- The commitment of an instance is one of the records. -/
theorem Scope.Shelves.submitted {p : Deposit} {ht : p.table ≠ .none → p.type.Files p.inUse}
    {untouched : Key → Prop} {before : Storage} {s : Scope} {i : Instance}
    (h : s.Shelves p ht untouched before) (hi : i.Member p)
    (hother : ∀ key, untouched key → p.inUse key ∧ key ≠ i.record.key) (id : Nat) :
    (s.submitted id i).Shelves p ht untouched before := by
  cases hdirty : i.record.header.dirty with
  | false =>
      rw [Scope.submitted, Record.commit_of_clean hdirty]
      exact h
  | true =>
      rw [Scope.submitted, Record.commit_of_dirty hdirty]
      refine Hauls.submit h (fun htable => ⟨?_, fun key hkey htext => ?_⟩) id _
      · exact Deposit.ships_capture hi.type hi.holds hi.used
      · obtain ⟨hused, hne⟩ := hother key hkey
        exact hne ((ht htable).distinct hi.used hused htext).symm

/-- An instance is saved. -/
theorem Scope.Shelves.save {p : Deposit} {ht : p.table ≠ .none → p.type.Files p.inUse}
    {untouched : Key → Prop} {before : Storage} {s : Scope} {id : Nat} {i : Instance}
    (h : s.Shelves p ht untouched before) (hr : Roster p s.source.repo s.instances)
    (hi : s.instances[id]? = some i) (hcounts : i.Counts p)
    (hother : ∀ key, untouched key → p.inUse key ∧ key ≠ i.record.key) :
    (s.save id).2.Shelves p ht untouched before := by
  have hmember := hr.members id i hi hcounts
  have hsubmitted := Scope.Shelves.submitted h hmember hother id
  rw [hr.save_eq_commit hi hcounts, Scope.commit_eq hmember]
  dsimp only
  split
  · exact hsubmitted.setRepo _
  · exact hsubmitted

end WriteBehind
