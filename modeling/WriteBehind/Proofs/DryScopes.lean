import WriteBehind.Proofs.Neighbours

/-!
# Sources without a saver

A source that is set up for a dry run has no saver, and its instances never have a place in
a batch.  `Scope.dry` forgets both, and puts another storage in the place of the one that
the saver writes to.  Every operation that fetches goes through this as long as the rows of
the keys without a slot are the same in both storages (`Scope.Reflects`): it gives the same
answer and leaves the same slots and instances behind.  Saves and edits do not look at rows
at all, and what the workers do is not to be seen.
-/

namespace WriteBehind

/-! ## Two storages -/

namespace Storage

/-- A storage after calls that have changed no row and nothing of what is refused. -/
structure SameRows (s s' : Storage) : Prop where
  refused : s'.audited.refused = s.audited.refused
  content : ∀ table, s'.content table = s.content table

variable {s s' s'' : Storage}

theorem SameRows.refl (s : Storage) : SameRows s s := ⟨rfl, fun _ => rfl⟩

theorem SameRows.trans (h : SameRows s s') (h' : SameRows s' s'') : SameRows s s'' :=
  ⟨h'.refused.trans h.refused, fun table => (h'.content table).trans (h.content table)⟩

theorem SameRows.rows (h : SameRows s s') (table : TableRef) : s'.rows table = s.rows table :=
  rows_congr (h.content table)

theorem sameRows_read (table : TableRef) (stage : Stage) (rows : Rows → List Document)
    (s : Storage) : SameRows s (read table stage rows s).2 :=
  ⟨refused_read table stage rows s, fun _ => content_read table _ stage rows s⟩

/-- Whether a call is refused depends on what is to be refused. -/
theorem askTable_congr (h : s'.audited.refused = s.audited.refused) (table : TableRef)
    (stage : Stage) : (s'.askTable table stage).1 = (s.askTable table stage).1 := by
  cases table with
  | none | memory ns | file path name => rfl
  | audited ns => simp only [askTable, ask, AuditedStore.ask, h]

theorem read_congr (h : s'.audited.refused = s.audited.refused) {table : TableRef}
    {rows : Rows → List Document} (hrows : rows (s'.rows table) = rows (s.rows table))
    (stage : Stage) : (read table stage rows s').1 = (read table stage rows s).1 := by
  rw [read_fst, read_fst, askTable_congr h, hrows]

end Storage

theorem Rows.select_congr {rows rows' : Rows} {keys : List String}
    (h : ∀ key ∈ keys, rows'.get? key = rows.get? key) : rows'.select keys = rows.select keys :=
  List.filterMap_congr h

/-! ## Records without a place -/

/-- A record whose last commitment has no place in a batch. -/
def Record.unplaced (r : Record) : Record := { r with header := r.header.setSavingIndex none }

/-- An instance whose last commitment has no place in a batch. -/
def Instance.unplaced (i : Instance) : Instance := { i with record := i.record.unplaced }

/-- What an edit answers: that it fails, or whether it has done something. -/
def Record.reply (r : Record) : Edit → Except Failure Bool
  | .assign _ => .ok true
  | .mark fields => (r.setChanged fields).map fun _ => true
  | .update incoming listed => ((r.update incoming listed).mapError .error).map fun _ => true
  | .delete => .ok r.delete.2

section Unplaced

variable (r : Record)

theorem Record.setChanged_unplaced (fields : List Field) :
    r.unplaced.setChanged fields = (r.setChanged fields).map Record.unplaced := by
  obtain ⟨type, header, data⟩ := r
  cases hl : header.lifecycle with
  | new | deleted | unavailable =>
      simp [setChanged, unplaced, Header.setChanged, Header.setSavingIndex, hl, Except.map]
  | normal =>
      cases hadd : header.changes.add fields <;>
        simp [setChanged, unplaced, Header.setChanged, Header.setSavingIndex, hl, hadd, Except.map]

theorem Record.update_unplaced (incoming : Json) (listed : FieldSet) :
    r.unplaced.update incoming listed = (r.update incoming listed).map Record.unplaced := by
  obtain ⟨type, header, data⟩ := r
  have hmark : (header.setSavingIndex none).markChanged listed =
      (header.markChanged listed).map (·.setSavingIndex none) := by
    cases hl : header.lifecycle <;>
      simp [Header.markChanged, Header.setSavingIndex, hl, Except.map]
  have hlife : (header.setSavingIndex none).lifecycle = header.lifecycle := rfl
  simp only [update, unplaced, lifecycle, hlife, hmark]
  by_cases hgone : header.lifecycle.isGone = true
  · simp only [hgone, if_true]
    rfl
  · simp only [hgone, Bool.false_eq_true, if_false, bind, Except.bind]
    cases toDocument incoming with
    | error e => rfl
    | ok incoming =>
        cases toDocument data with
        | error e => rfl
        | ok current =>
            dsimp only
            cases type.read (.ofDocument (overlay type.fields listed incoming current)) with
            | error e => rfl
            | ok data => cases header.markChanged listed <;> rfl

theorem Record.delete_unplaced : r.unplaced.delete = (r.delete.1.unplaced, r.delete.2) := by
  obtain ⟨type, header, data⟩ := r
  cases hl : header.lifecycle <;>
    simp [delete, unplaced, Header.markAsDeleted, Header.setSavingIndex, hl]

/-- An edit does not look at the place. -/
theorem Record.edit_unplaced (e : Edit) :
    r.unplaced.edit e = (r.edit e).unplaced ∧ r.unplaced.reply e = r.reply e := by
  cases e with
  | assign data => exact ⟨rfl, rfl⟩
  | mark fields =>
      simp only [edit, reply, setChanged_unplaced]
      cases r.setChanged fields <;> exact ⟨rfl, rfl⟩
  | update incoming listed =>
      simp only [edit, reply, update_unplaced]
      cases r.update incoming listed <;> exact ⟨rfl, rfl⟩
  | delete =>
      simp only [edit, reply, delete_unplaced]
      exact ⟨trivial, trivial⟩

/-- A commit does not look at the place. -/
theorem Record.commit_unplaced :
    r.unplaced.commit = r.commit.map fun committed => (committed.1, committed.2.unplaced) := by
  cases hdirty : r.header.dirty with
  | false =>
      rw [commit_of_clean hdirty, commit_of_clean (r := r.unplaced) hdirty]
      rfl
  | true =>
      rw [commit_of_dirty hdirty, commit_of_dirty (r := r.unplaced) hdirty]
      rfl

end Unplaced

/-! ## Sources without a saver -/

/-- A source that writes nothing. -/
def Source.dry (source : Source) : Source := { source with saver := none }

namespace Scope

/-- A source that writes nothing, with instances that have no place in a batch, above another
storage. -/
def dry (s : Scope) (storage : Storage) : Scope :=
  ⟨s.source.dry, s.instances.map Instance.unplaced, storage⟩

/-- Another storage refuses the same calls, and it has the same rows of all keys in use of
which nothing is cached. -/
structure Reflects (s : Scope) (inUse : Key → Prop) (storage : Storage) : Prop where
  refused : storage.audited.refused = s.storage.audited.refused
  rows : ∀ key, inUse key → s.source.repo.get key = none →
    (storage.rows s.source.table).get? key.text = (s.storage.rows s.source.table).get? key.text

/-- An operation does the same without a saver: it gives the same answer, it leaves the same
slots and instances behind, and it changes no row. -/
def Repeats {α : Type} (op : Scope → Except Error α × Scope) (s : Scope) (storage : Storage) :
    Prop :=
  ∃ storage', storage.SameRows storage' ∧
    op (s.dry storage) = ((op s).1, (op s).2.dry storage')

section Dry

variable {s : Scope} {inUse : Key → Prop} {storage : Storage} {id : Nat}

/-! ### Fetches -/

theorem publish_dry (s : Scope) (storage : Storage) (key : Key) (data : Option Json) :
    (s.dry storage).publish key data =
      ((s.publish key data).1, (s.publish key data).2.dry storage) := by
  cases hget : s.source.repo.get key with
  | some slot =>
      rw [publish_of_cached hget, publish_of_cached (s := s.dry storage) hget]
  | none =>
      cases data with
      | none =>
          rw [publish_of_absent hget, publish_of_absent (s := s.dry storage) hget]
          rfl
      | some data =>
          rw [publish_of_found hget, publish_of_found (s := s.dry storage) hget]
          simp only [dry, Source.dry, List.length_map, List.map_append, List.map_cons,
            List.map_nil]
          rfl

theorem publishRows_dry (s : Scope) (storage : Storage) (rows : List Json) :
    (s.dry storage).publishRows rows =
      ((s.publishRows rows).1, (s.publishRows rows).2.dry storage) := by
  induction rows generalizing s with
  | nil => rfl
  | cons data rows ih =>
      have htype : (s.dry storage).type = s.type := rfl
      simp only [publishRows, htype, publish_dry, ih]

theorem publishMissing_dry (s : Scope) (storage : Storage) (keys : List Key) :
    (s.dry storage).publishMissing keys = (s.publishMissing keys).dry storage := by
  induction keys generalizing s with
  | nil => rfl
  | cons key keys ih => simp only [publishMissing, publish_dry, ih]

theorem get_dry (h : s.Reflects inUse storage) {key : Key} (hused : inUse key) :
    Repeats (·.get key) s storage := by
  cases hget : s.source.repo.get key with
  | some slot =>
      refine ⟨storage, .refl storage, ?_⟩
      have hdry : (s.dry storage).source.repo.get key = some slot := hget
      simp only [get, hget, hdry]
  | none =>
      have hdry : (s.dry storage).source.repo.get key = none := hget
      have hread : (storage.fetch s.source.table true key.text).1 =
          (s.storage.fetch s.source.table true key.text).1 := by
        refine Storage.read_congr h.refused (Rows.select_congr fun text htext => ?_) _
        rw [List.mem_singleton.mp htext]
        exact h.rows key hused hget
      refine ⟨(storage.fetch s.source.table true key.text).2, Storage.sameRows_read _ _ _ _, ?_⟩
      cases hfetch : (s.storage.fetch s.source.table true key.text).1.bind (firstData s.type) with
      | error e =>
          have hfetch' : ((s.dry storage).storage.fetch (s.dry storage).source.table true
              key.text).1.bind (firstData (s.dry storage).type) = .error e := by
            rw [← hfetch, ← hread]
            rfl
          simp only [get_of_error hget hfetch, get_of_error hdry hfetch']
          rfl
      | ok data =>
          have hfetch' : ((s.dry storage).storage.fetch (s.dry storage).source.table true
              key.text).1.bind (firstData (s.dry storage).type) = .ok data := by
            rw [← hfetch, ← hread]
            rfl
          have hfetched : (s.dry storage).fetched key = (s.fetched key).dry
            (storage.fetch s.source.table true key.text).2 := rfl
          simp only [get_of_ok hget hfetch, get_of_ok hdry hfetch', hfetched, publish_dry]

theorem getMulti_of_known {keys : List Key} (hknown : (s.source.repo.getMulti keys).2 = []) :
    s.getMulti keys = (.ok (s.source.repo.getMulti keys).1, s) := by
  simp [getMulti, hknown]

theorem getMulti_of_error {keys : List Key} (hunknown : (s.source.repo.getMulti keys).2 ≠ [])
    {e : Error} (hfetch : (s.storage.fetchMulti s.source.table
      ((s.source.repo.getMulti keys).2.map (·.text))).1.bind
        (fun cursor => (cursor.allAs s.type.read).1) = .error e) :
    s.getMulti keys = (.error e, s.fetchedMulti (s.source.repo.getMulti keys).2) := by
  rw [Scope.type] at hfetch
  simp only [getMulti, List.isEmpty_iff, hunknown, if_false, Scope.type, hfetch]
  rfl

theorem getMulti_of_ok {keys : List Key} (hunknown : (s.source.repo.getMulti keys).2 ≠ [])
    {rows : List Json} (hfetch : (s.storage.fetchMulti s.source.table
      ((s.source.repo.getMulti keys).2.map (·.text))).1.bind
        (fun cursor => (cursor.allAs s.type.read).1) = .ok rows) :
    s.getMulti keys = (.ok ((s.source.repo.getMulti keys).1 ++
        ((s.fetchedMulti (s.source.repo.getMulti keys).2).publishRows rows).1),
      ((s.fetchedMulti (s.source.repo.getMulti keys).2).publishRows rows).2.publishMissing
        ((s.source.repo.getMulti keys).2.filter (· ∉ rows.map s.type.keyOf))) := by
  rw [Scope.type] at hfetch
  simp only [getMulti, List.isEmpty_iff, hunknown, if_false, Scope.type, hfetch]
  rfl

theorem getMulti_dry (h : s.Reflects inUse storage) {keys : List Key}
    (hused : ∀ key ∈ keys, inUse key) : Repeats (·.getMulti keys) s storage := by
  by_cases hknown : (s.source.repo.getMulti keys).2 = []
  · refine ⟨storage, .refl storage, ?_⟩
    simp only [getMulti_of_known hknown, getMulti_of_known (s := s.dry storage) hknown]
    rfl
  · have hrows : ∀ text ∈ (s.source.repo.getMulti keys).2.map (·.text),
        (storage.rows s.source.table).get? text = (s.storage.rows s.source.table).get? text := by
      intro text htext
      obtain ⟨key, hkey, rfl⟩ := List.mem_map.mp htext
      obtain ⟨hmem, hnone⟩ := List.mem_filter.mp hkey
      exact h.rows key (hused key hmem) (Option.isNone_iff_eq_none.mp hnone)
    have hread : (storage.fetchMulti s.source.table
        ((s.source.repo.getMulti keys).2.map (·.text))).1 =
          (s.storage.fetchMulti s.source.table
            ((s.source.repo.getMulti keys).2.map (·.text))).1 :=
      Storage.read_congr h.refused (Rows.select_congr hrows) _
    refine ⟨(storage.fetchMulti s.source.table
      ((s.source.repo.getMulti keys).2.map (·.text))).2, Storage.sameRows_read _ _ _ _, ?_⟩
    have hfetched : (s.dry storage).fetchedMulti (s.source.repo.getMulti keys).2 =
        (s.fetchedMulti (s.source.repo.getMulti keys).2).dry (storage.fetchMulti s.source.table
          ((s.source.repo.getMulti keys).2.map (·.text))).2 := rfl
    cases hfetch : (s.storage.fetchMulti s.source.table
        ((s.source.repo.getMulti keys).2.map (·.text))).1.bind
          (fun cursor => (cursor.allAs s.type.read).1) with
    | error e =>
        rw [← hread] at hfetch
        simp only [getMulti_of_error (s := s.dry storage) hknown hfetch]
        rw [hread] at hfetch
        simp only [getMulti_of_error hknown hfetch]
        exact congrArg _ hfetched
    | ok rows =>
        rw [← hread] at hfetch
        simp only [getMulti_of_ok (s := s.dry storage) hknown hfetch]
        rw [hread] at hfetch
        simp only [getMulti_of_ok hknown hfetch]
        have hpublished := publishRows_dry (s.fetchedMulti (s.source.repo.getMulti keys).2)
          (storage.fetchMulti s.source.table ((s.source.repo.getMulti keys).2.map (·.text))).2 rows
        have hrepo : (s.dry storage).source.repo = s.source.repo := rfl
        have htype : (s.dry storage).type = s.type := rfl
        simp only [hrepo, htype, hfetched, hpublished, publishMissing_dry]

/-! ### Creations -/

theorem create_dry (h : s.Reflects inUse storage) {data : Json}
    (hused : inUse (s.type.keyOf data)) (tmp : Bool) :
    Repeats (·.create data { tmp }) s storage := by
  obtain ⟨storage', hsame, hget⟩ := get_dry h hused
  refine ⟨storage', hsame, ?_⟩
  have hkey : (newRecord s.type data { tmp }).key = s.type.keyOf data := rfl
  have htype : (s.dry storage).type = s.type := rfl
  cases hresult : s.get (s.type.keyOf data) with
  | mk result s' =>
      simp only [hresult] at hget
      cases result with
      | error e =>
          simp only [create, hkey, htype, hget, hresult]
          rfl
      | ok found =>
          cases found with
          | some id =>
              simp only [create, hkey, htype, hget, hresult]
              rfl
          | none =>
              have hfree := free_of_get_none (congrArg Prod.fst hresult)
              rw [hresult] at hfree
              simp only [create_eq hresult hfree, create_eq (s := s.dry storage) hget hfree]
              simp only [dry, List.length_map, List.map_append, List.map_cons, List.map_nil]
              rfl

/-! ### Saves -/

theorem setInstance_dry (s : Scope) (storage : Storage) (id : Nat) (i : Instance) :
    (s.dry storage).setInstance id i.unplaced = (s.setInstance id i).dry storage := by
  simp only [setInstance, dry, List.map_set]

theorem submit_dry (s : Scope) (storage : Storage) (id : Nat) (i : Instance) (c : Snapshot) :
    (s.dry storage).submit id i.unplaced c = (s.submit id i c).dry storage := by
  have hset : (s.dry storage).submit id i.unplaced c = (s.setInstance id i).dry storage :=
    setInstance_dry s storage id i
  rw [hset]
  cases hsaver : s.source.saver with
  | none => simp only [submit, hsaver]
  | some saver =>
      simp only [submit, hsaver, setInstance, dry, List.map_set]
      rfl

theorem commit_dry (s : Scope) (storage : Storage) (id : Nat) (i : Instance) :
    (s.dry storage).commit id i.unplaced =
      ((s.commit id i).1, (s.commit id i).2.dry storage) := by
  have hcommit : i.unplaced.record.commit =
      i.record.commit.map fun committed => (committed.1, committed.2.unplaced) :=
    i.record.commit_unplaced
  have hdetached : i.unplaced.record.header.detached = i.record.header.detached := rfl
  have hkey : i.unplaced.record.key = i.record.key := rfl
  cases hresult : i.record.commit with
  | none =>
      rw [hresult] at hcommit
      have hlife : i.unplaced.record.lifecycle = i.record.lifecycle := rfl
      simp only [commit, hcommit, hresult, Option.map_none, hdetached, hlife, hkey]
      split <;> rfl
  | some committed =>
      obtain ⟨c, r⟩ := committed
      rw [hresult] at hcommit
      have hlife : r.unplaced.lifecycle = r.lifecycle := rfl
      have hsubmit := submit_dry s storage id ⟨r, i.events ++ committedEvent c⟩ c
      simp only [commit, hcommit, hresult, Option.map_some, hdetached, hlife, hkey]
      split
      · rw [show ⟨r.unplaced, i.unplaced.events ++ committedEvent c⟩ =
          Instance.unplaced ⟨r, i.events ++ committedEvent c⟩ from rfl, hsubmit]
        rfl
      · exact congrArg _ hsubmit

theorem save_dry (s : Scope) (storage : Storage) (id : Nat) :
    (s.dry storage).save id = ((s.save id).1, (s.save id).2.dry storage) := by
  have hget : (s.dry storage).instances[id]? = (s.instances[id]?).map Instance.unplaced :=
    List.getElem?_map
  cases hi : s.instances[id]? with
  | none =>
      rw [hi] at hget
      simp only [save, hget, hi, Option.map_none]
  | some i =>
      rw [hi] at hget
      have hexpired : i.unplaced.record.header.expired = i.record.header.expired := rfl
      have hdetached : i.unplaced.record.header.detached = i.record.header.detached := rfl
      have hlife : i.unplaced.record.header.lifecycle = i.record.header.lifecycle := rfl
      have hkey : i.unplaced.record.key = i.record.key := rfl
      have hrepo : (s.dry storage).source.repo = s.source.repo := rfl
      have hset : ∀ repo, (s.dry storage).setRepo repo = (s.setRepo repo).dry storage :=
        fun _ => rfl
      simp only [save, hget, hi, Option.map_some, hexpired, hdetached, hlife, hkey, hrepo, hset,
        commit_dry]
      split
      · rfl
      · split
        · split <;> rfl
        · rfl

/-- Without a saver there is nothing to wait for. -/
theorem sync_dry (s : Scope) (storage : Storage) (id : Nat) :
    (s.dry storage).sync id =
      ((s.save id).1.map fun _ => (), (s.sync id).2.dry storage) := by
  have hsave := save_dry s storage id
  cases hresult : s.save id with
  | mk result s' =>
      rw [hresult] at hsave
      cases result with
      | error e =>
          simp only [sync, hsave, hresult]
          rfl
      | ok committed =>
          have hdry : (s'.dry storage).source.saver = none := rfl
          simp only [sync, hsave, hresult, hdry]
          split
          · rfl
          · rfl

/-! ### The saver -/

theorem stepSaver_dry (s : Scope) (storage : Storage)
    (step : Saver → Storage → Saver × Storage) :
    (s.stepSaver step).dry storage = s.dry storage := by
  cases hsaver : s.source.saver <;> simp [stepSaver, hsaver, dry, Source.dry]

theorem syncAll_dry (s : Scope) (storage : Storage) :
    (s.dry storage).syncAll = (.ok (), s.syncAll.2.dry storage) := by
  cases hsaver : s.source.saver <;> simp [syncAll, hsaver, dry, Source.dry]

end Dry

end Scope

end WriteBehind
