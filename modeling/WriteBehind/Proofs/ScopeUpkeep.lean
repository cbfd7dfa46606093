import WriteBehind.Proofs.Traffic

/-!
# Upkeep of a source by its operations

The operations on the records of a source keep the invariant of its ledger: fetching,
creating, editing and saving.  The invariant goes by what each instance committed last,
which `settle` follows along.
-/

namespace WriteBehind

/-- The data that each instance had when nothing of it was left to commit for the last
time, or when it came to be, after a step from the old instances to the new ones. -/
def settle (kept : Nat → Json) (old new : List Instance) (id : Nat) : Json :=
  match old[id]?, new[id]? with
  | none, some i => i.record.data
  | some i, some i' =>
    if i.record.header.dirty && !i'.record.header.dirty then i'.record.data else kept id
  | _, none => kept id

theorem settle_self (kept : Nat → Json) (instances : List Instance) :
    settle kept instances instances = kept := by
  funext id
  cases hi : instances[id]? with
  | none => simp [settle, hi]
  | some i => simp [settle, hi]

theorem settle_of_same (kept : Nat → Json) {old new : List Instance} {id : Nat} {i : Instance}
    (hold : old[id]? = some i) (hnew : new[id]? = some i) : settle kept old new id = kept id := by
  simp [settle, hold, hnew]

theorem settle_of_lt (kept : Nat → Json) {old : List Instance} (more : List Instance) {id : Nat}
    (h : id < old.length) : settle kept old (old ++ more) id = kept id := by
  simp [settle, List.getElem?_append_left h, h]

theorem settle_length (kept : Nat → Json) (old : List Instance) (i : Instance) :
    settle kept old (old ++ [i]) old.length = i.record.data := by
  simp [settle]

theorem settle_set_of_ne (kept : Nat → Json) (old : List Instance) (i : Instance) {id id' : Nat}
    (h : id' ≠ id) : settle kept old (old.set id i) id' = kept id' := by
  rw [settle, List.getElem?_set_ne (Ne.symm h)]
  exact congrFun (settle_self kept old) id'

theorem settle_set_self (kept : Nat → Json) {old : List Instance} {i : Instance} {id : Nat}
    (hi : old[id]? = some i) (i' : Instance) :
    settle kept old (old.set id i') id =
      if i.record.header.dirty && !i'.record.header.dirty then i'.record.data else kept id := by
  have hlt : id < old.length := (List.getElem?_eq_some_iff.mp hi).1
  rw [settle, hi, List.getElem?_set_self hlt]

namespace Scope

/-- A source that keeps its records in their table. -/
structure Kept (p : Deposit) (stopped : Bool) (kept : Nat → Json) (s : Scope) : Prop where
  model : s.source.info.model = p.model
  table : s.source.table = p.table
  live : stopped = false → ∀ w ∈ s.ledger.workers, w.Live
  ledger : s.ledger.Kept p.domain kept

section Operations

variable {p : Deposit} {stopped : Bool} {kept : Nat → Json} {s : Scope} {key : Key}

theorem Kept.works (h : s.Kept p stopped kept) : s.Works p stopped :=
  ⟨h.model, h.table, h.live, h.ledger.manned⟩

/-- What workers do keeps a source. -/
theorem Kept.of_moves {s' : Scope} {later : Bool} (h : s.Kept p stopped kept)
    (hworks : s'.Works p later) (hmoves : Ledger.Moves p.domain s.ledger s'.ledger) :
    s'.Kept p later kept :=
  ⟨hworks.model, hworks.table, hworks.live, h.ledger.of_moves hmoves⟩

theorem Kept.type_eq (h : s.Kept p stopped kept) : s.type = p.type := h.works.type_eq

/-- Reads leave a source as it is. -/
theorem Kept.setStorage (h : s.Kept p stopped kept) {storage : Storage}
    (hcontent : storage.content p.table = s.storage.content p.table) :
    ({ s with storage } : Scope).Kept p stopped kept := by
  refine ⟨h.model, h.table, h.live, ?_⟩
  exact h.ledger.setTable (Storage.rows_congr hcontent) (h.ledger.good.congr hcontent)

/-- A source takes no notice of other tables, nor of the instances of other types. -/
theorem Kept.aside (h : s.Kept p stopped kept) {instances : List Instance} {storage : Storage}
    (hcontent : storage.content p.table = s.storage.content p.table)
    (hsame : ∀ (id : Nat) (i : Instance), i.record.type = p.type →
      (instances[id]? = some i ↔ s.instances[id]? = some i)) :
    (⟨s.source, instances, storage⟩ : Scope).Kept p stopped
      (settle kept s.instances instances) := by
  have hread := h.setStorage hcontent
  refine ⟨h.model, h.table, h.live, ?_⟩
  refine hread.ledger.setInstances (fun id i htype => hsame id i htype) fun id i hi htype => ?_
  exact settle_of_same kept hi ((hsame id i htype).mpr hi)

/-- An edit of an instance that keeps its key. -/
theorem Kept.edit (h : s.Kept p stopped kept) {id : Nat} {i : Instance}
    (hi : s.instances[id]? = some i) (htype : i.record.type = p.type) (e : Edit)
    (hholds : p.type.Holds (i.record.edit e).data)
    (hkey : (i.record.edit e).key = i.record.key) :
    ({ s with instances := s.instances.set id { i with record := i.record.edit e } } :
      Scope).Kept p stopped
        (settle kept s.instances (s.instances.set id { i with record := i.record.edit e })) := by
  obtain ⟨hsame, hedit⟩ := i.record.edit_editsTo e
  have howns : s.ledger.Owns p.domain i.record.key id i := ⟨hi, htype, rfl⟩
  refine ⟨h.model, h.table, h.live, ?_⟩
  exact h.ledger.edit howns (hsame.trans htype) hkey hholds hedit
    (fun id' hid => settle_set_of_ne kept s.instances _ hid)
    (settle_set_self kept hi { i with record := i.record.edit e })

/-! ## Fetching -/

theorem firstData_of_none (type : RecordType) {rows : Rows} {key : String}
    (hrow : rows.get? key = none) : firstData type (.ofRows (rows.select [key])) = .ok none := by
  simp [firstData, Rows.select, hrow, Cursor.ofRows, Cursor.next]

theorem firstData_of_some (type : RecordType) {rows : Rows} {key : String} {row : Document}
    (hrow : rows.get? key = some row) :
    firstData type (.ofRows (rows.select [key])) = (type.read (.ofDocument row)).map some := by
  simp [firstData, Rows.select, hrow, Cursor.ofRows, Cursor.next, Cursor.decodeAs,
    Cursor.decode, Except.bind]

theorem publish_none {s : Scope} {key : Key} (hget : s.source.repo.get key = none)
    (hkeeps : s.source.repo.volatile = false) :
    s.publish key none = (none, s.setRepo (s.source.repo.setOnFetch key none).2) := by
  have hfetch := (Repo.get_setOnFetch hget hkeeps none key).1
  rw [publish]
  simp only [Option.map_none, hfetch]

theorem publish_some {s : Scope} {key : Key} (hget : s.source.repo.get key = none)
    (hkeeps : s.source.repo.volatile = false) (data : Json) :
    s.publish key (some data) = (some s.instances.length,
      { s with
        source := { s.source with
          repo := (s.source.repo.setOnFetch key (some s.instances.length)).2 }
        instances := s.instances ++ [⟨.load s.type data, [s.birth]⟩] }) := by
  have hfetch := (Repo.get_setOnFetch hget hkeeps (some s.instances.length) key).1
  rw [publish]
  simp only [Option.map_some, hfetch, Option.isSome_some]
  rfl

/-- The scope after the call of a fetch. -/
def fetched (s : Scope) (key : Key) : Scope :=
  { s with storage := (s.storage.fetch s.source.table true key.text).2 }

theorem get_of_error {s : Scope} {key : Key} (hget : s.source.repo.get key = none) {e : Error}
    (hfetch : (s.storage.fetch s.source.table true key.text).1.bind (firstData s.type) =
      .error e) : s.get key = (.error e, s.fetched key) := by
  rw [Scope.type] at hfetch
  simp only [Scope.get, hget, Scope.type, hfetch]
  rfl

theorem get_of_ok {s : Scope} {key : Key} (hget : s.source.repo.get key = none)
    {data : Option Json}
    (hfetch : (s.storage.fetch s.source.table true key.text).1.bind (firstData s.type) =
      .ok data) :
    s.get key =
      (.ok ((s.fetched key).publish key data).1, ((s.fetched key).publish key data).2) := by
  rw [Scope.type] at hfetch
  simp only [Scope.get, hget, Scope.type, hfetch]
  rfl

/-- A key of which nothing is known: its fetch fails, finds nothing, or finds a row. -/
theorem get_cases {s : Scope} {key : Key} (hget : s.source.repo.get key = none)
    (hkeeps : s.source.repo.volatile = false) :
    (∃ e, s.get key = (.error e, s.fetched key)) ∨
    ((s.storage.rows s.source.table).get? key.text = none ∧
      s.get key =
        (.ok none, (s.fetched key).setRepo (s.source.repo.setOnFetch key none).2)) ∨
    ∃ row data, (s.storage.rows s.source.table).get? key.text = some row ∧
      s.type.read (.ofDocument row) = .ok data ∧
      s.get key = (.ok (some s.instances.length),
        { s.fetched key with
          source := { s.source with
            repo := (s.source.repo.setOnFetch key (some s.instances.length)).2 }
          instances := s.instances ++ [⟨.load s.type data, [s.birth]⟩] }) := by
  have hnone := publish_none (s := s.fetched key) hget hkeeps
  have hsome := publish_some (s := s.fetched key) hget hkeeps
  rcases Storage.fetch_cases s.storage s.source.table true key.text with ⟨e, he⟩ | hok
  · left
    refine ⟨e, get_of_error hget ?_⟩
    rw [he]
    rfl
  · have hfetch := congrArg (·.bind (firstData s.type)) hok
    cases hrow : (s.storage.rows s.source.table).get? key.text with
    | none =>
        right
        left
        have hdata := hfetch.trans (firstData_of_none s.type hrow)
        refine ⟨rfl, ?_⟩
        rw [get_of_ok hget hdata, hnone]
        rfl
    | some row =>
        have hdata := hfetch.trans (firstData_of_some s.type hrow)
        cases hread : s.type.read (.ofDocument row) with
        | error e =>
            left
            rw [hread] at hdata
            exact ⟨e, get_of_error hget hdata⟩
        | ok data =>
            right
            right
            rw [hread] at hdata
            refine ⟨row, data, rfl, hread, ?_⟩
            rw [get_of_ok hget hdata, hsome]
            rfl

theorem Kept.fetched (h : s.Kept p stopped kept) (key : Key) :
    (s.fetched key).Kept p stopped kept :=
  h.setStorage (Storage.content_read s.source.table p.table (.fetch true key.text)
    (·.select [key.text]) s.storage)

/-- A fetch keeps the source.  If it gives nothing, it is known that there is nothing. -/
theorem Kept.get (h : s.Kept p stopped kept) (hp : p.type.Stores p.inUse)
    (hused : p.inUse key) :
    (s.get key).2.Kept p stopped (settle kept s.instances (s.get key).2.instances) ∧
      ((s.get key).1 = .ok none → (s.get key).2.source.repo.get key = some .missing ∧
        (s.get key).2.instances = s.instances) := by
  cases hget : s.source.repo.get key with
  | some slot =>
      have hresult : s.get key = (.ok slot.live?, s) := by simp [Scope.get, hget]
      rw [hresult, settle_self]
      refine ⟨h, ?_⟩
      intro hnone
      cases slot with
      | live id => simp [Slot.live?] at hnone
      | missing => exact ⟨hget, rfl⟩
  | none =>
      have hfetched := h.fetched key
      have hunknown := (hfetched.ledger.keys key hused).unknown hget
      have hrows : ((s.fetched key).storage.rows p.table).get? key.text =
          (s.storage.rows s.source.table).get? key.text := by
        rw [h.table]
        exact congrArg (SortedMap.get? · key.text) (Storage.rows_congr
          (Storage.content_read s.source.table p.table (.fetch true key.text)
            (·.select [key.text]) s.storage))
      rcases get_cases hget h.ledger.keeps with
        ⟨e, hresult⟩ | ⟨hrow, hresult⟩ | ⟨row, data, hrow, hread, hresult⟩
      · rw [hresult]
        refine ⟨?_, fun hnone => by cases hnone⟩
        dsimp only [Scope.fetched]
        rw [settle_self]
        exact hfetched
      · rw [hresult]
        refine ⟨?_, fun _ => ⟨?_, rfl⟩⟩
        · dsimp only [Scope.fetched, setRepo]
          rw [settle_self]
          exact ⟨h.model, h.table, h.live,
            hfetched.ledger.fetch_none hget hunknown (hrows.trans hrow)⟩
        · exact (Repo.get_setOnFetch hget h.ledger.keeps none key).2.2.trans (if_pos rfl)
      · rw [hresult]
        refine ⟨?_, fun hnone => by cases hnone⟩
        obtain ⟨old, hold, hkey, hstored⟩ := hunknown.stored row
          (hunknown.eventual_eq_row.trans (hrows.trans hrow))
        have htype : s.type = p.domain.type := h.type_eq
        rw [htype] at hread ⊢
        obtain ⟨hdata, hdataKey, hdataRow⟩ := hp.of_read hold hstored hread
        exact ⟨h.model, h.table, h.live, hfetched.ledger.fetch_some hget hunknown
          (hrows.trans hrow) hdata (hdataKey.trans hkey) hdataRow hused [s.birth]
          (fun id hid => settle_of_lt kept _ hid) (settle_length kept s.instances _)⟩

/-! ## Creating -/

theorem create_eq {s s' : Scope} {data : Json} {tmp : Bool}
    (hget : s.get (newRecord s.type data { tmp }).key = (.ok none, s'))
    (hfree : ∀ id, s'.source.repo.get (newRecord s.type data { tmp }).key ≠ some (.live id)) :
    s.create data { tmp } = (.ok s'.instances.length,
      { s' with
        source := { s'.source with
          repo := (s'.source.repo.setOnStore (newRecord s.type data { tmp }).key
            s'.instances.length).2 }
        instances := s'.instances ++ [⟨newRecord s.type data { tmp }, [.create]⟩] }) := by
  have hstore := (Repo.get_setOnStore_of_free hfree s'.instances.length
    (newRecord s.type data { tmp }).key).1
  simp only [Scope.create, Bool.false_eq_true, if_false, hget, addInstance, hstore, if_true]
  rfl

theorem Kept.create (h : s.Kept p stopped kept) (hp : p.type.Stores p.inUse) {data : Json}
    (hdata : p.type.Holds data) (hused : p.inUse (p.type.keyOf data)) (tmp : Bool) :
    (s.create data { tmp }).2.Kept p stopped
      (settle kept s.instances (s.create data { tmp }).2.instances) := by
  have hkey : (newRecord s.type data { tmp }).key = p.type.keyOf data := by
    rw [h.type_eq]
    rfl
  obtain ⟨hkept, hnone⟩ := h.get hp hused
  rw [← hkey] at hkept hnone
  cases hget : s.get (newRecord s.type data { tmp }).key with
  | mk result s' =>
      rw [hget] at hkept hnone
      cases result with
      | error e =>
          have hresult : s.create data { tmp } = (.error e, s') := by
            simp [Scope.create, hget]
          rw [hresult]
          exact hkept
      | ok found =>
          cases found with
          | some id =>
              have hresult : (s.create data { tmp }).2 = s' := by simp [Scope.create, hget]
              rw [hresult]
              exact hkept
          | none =>
              obtain ⟨hmissing, hinstances⟩ := hnone rfl
              dsimp only at hkept hmissing hinstances
              rw [create_eq hget fun id => by simp [hmissing]]
              rw [hinstances, settle_self] at hkept
              rw [hkey] at hmissing ⊢
              refine ⟨hkept.model, hkept.table, hkept.live, ?_⟩
              have hlength : s'.instances.length = s.instances.length := by rw [hinstances]
              dsimp only
              refine hkept.ledger.create hmissing hused ?_ h.type_eq hkey rfl rfl ?_
              · have hnew : settle kept s.instances
                    (s'.instances ++ [⟨newRecord s.type data { tmp }, [.create]⟩])
                    s'.instances.length = data := by
                  rw [hinstances]
                  exact settle_length kept s.instances _
                have htype : (newRecord s.type data { tmp }).type.Holds data := by
                  rw [show (newRecord s.type data { tmp }).type = p.type from h.type_eq]
                  exact hdata
                refine ⟨htype, ?_, ?_, ?_, rfl, rfl, fun hgone => by cases hgone⟩
                · exact hnew.symm ▸ htype
                · exact congrArg _ hnew
                · exact hkey.symm ▸ hused
              · intro id hid
                rw [hinstances]
                exact settle_of_lt kept _ (hlength ▸ hid)

/-! ## Saving -/

theorem commit_of_clean {s : Scope} {id : Nat} {i : Instance}
    (hclean : i.record.header.dirty = false) (hattached : i.record.header.detached = false) :
    (s.commit id i).2 = if i.record.lifecycle = .unavailable then
      s.setRepo (s.source.repo.setOnDelete i.record.key id).2 else s := by
  simp only [Scope.commit, Record.commit_of_clean hclean, hattached, Bool.not_false,
    Bool.true_and, decide_eq_true_eq]
  split <;> rfl

/-- What a commit makes of the ledger. -/
theorem ledger_commit {s : Scope} (id : Nat) {i : Instance} {saver : Saver} {n j : Nat}
    {w' : Worker} {storage : Storage} (hdirty : i.record.header.dirty = true)
    (hattached : i.record.header.detached = false) (hsaver : s.source.saver = some saver)
    (hput : saver.put (Storage.save s.source.table) (.snapshot i.record.capture)
        i.record.header.savingIndex s.storage =
      (some j, { saver with workers := saver.workers.set n w' }, storage)) :
    ∃ events, (s.commit id i).2.ledger =
        (s.ledger.setWorker n w' storage).settleInstance i.record.key id
          (Ledger.committed i (some j) events) ∧
      (s.commit id i).2.source.info = s.source.info ∧
      (s.commit id i).2.source.table = s.source.table := by
  have hcommit := Record.commit_of_dirty hdirty
  have hput' : saver.put (Storage.save s.source.table)
      (.snapshot ⟨i.record.type, i.record.key, i.record.header.toPending, i.record.version,
        i.record.data⟩) i.record.header.savingIndex s.storage =
      (some j, { saver with workers := saver.workers.set n w' }, storage) := hput
  refine ⟨i.events ++ committedEvent ⟨i.record.type, i.record.key, i.record.header.toPending,
    i.record.version, i.record.data⟩, ?_⟩
  simp only [Scope.commit, hcommit, hattached, Bool.not_false, Bool.true_and,
    decide_eq_true_eq, Scope.submit, hsaver]
  have hindex : i.record.header.beginCommit.finishCommit.savingIndex =
      i.record.header.savingIndex := rfl
  rw [hindex, hput']
  split
  next hgone =>
    refine ⟨?_, rfl, rfl⟩
    have hgone' : (Ledger.committed i (some j) (i.events ++ committedEvent ⟨i.record.type,
        i.record.key, i.record.header.toPending, i.record.version,
        i.record.data⟩)).record.lifecycle = .unavailable := hgone
    simp only [Scope.ledger, setRepo, setInstance, Ledger.settleInstance, Ledger.setWorker,
      hsaver, Option.map_some, Option.getD_some, if_pos hgone']
    rfl
  next hpresent =>
    refine ⟨?_, rfl, rfl⟩
    have hpresent' : ¬ (Ledger.committed i (some j) (i.events ++ committedEvent ⟨i.record.type,
        i.record.key, i.record.header.toPending, i.record.version,
        i.record.data⟩)).record.lifecycle = .unavailable := hpresent
    simp only [Scope.ledger, setInstance, Ledger.settleInstance, Ledger.setWorker,
      hsaver, Option.map_some, Option.getD_some, if_neg hpresent']
    rfl

theorem Kept.commit (h : s.Kept p false kept) (hp : p.type.Stores p.inUse) {id : Nat}
    {i : Instance} (hi : s.instances[id]? = some i) (htype : i.record.type = p.type)
    (hmarked : i.record.lifecycle = .normal → i.record.Marked (kept id)) :
    (s.commit id i).2.Kept p false (settle kept s.instances (s.commit id i).2.instances) := by
  have howns : s.ledger.Owns p.domain i.record.key id i := ⟨hi, htype, rfl⟩
  have hfits := h.ledger.instances id i hi htype
  cases hdirty : i.record.header.dirty with
  | false =>
      rw [commit_of_clean hdirty hfits.attached]
      split
      next hgone =>
        dsimp only [setRepo]
        rw [settle_self]
        exact ⟨h.model, h.table, h.live, h.ledger.forget howns hgone⟩
      · rw [settle_self]
        exact h
  | true =>
      obtain ⟨saver, w₁, t₁, place, j, v, hsaver, hmoves, hw₁, hlive₁, hplace, hput,
        hputSaver⟩ := h.works.exists_put (fun _ _ => hp.distinct) i
      obtain ⟨events, hledger, hinfo, htable⟩ :=
        ledger_commit id hdirty hfits.attached hsaver hputSaver
      have hinstances : (s.commit id i).2.instances =
          s.instances.set id (Ledger.committed i (some j) events) :=
        congrArg Ledger.instances hledger
      have hsame : (s.ledger.setWorker (s.ledger.laneOf i.record.key) w₁ t₁).setWorker
          (s.ledger.laneOf i.record.key) v t₁ =
          s.ledger.setWorker (s.ledger.laneOf i.record.key) v t₁ := by
        simp [Ledger.setWorker, List.set_set]
      rw [hinstances]
      refine ⟨hinfo ▸ h.model, htable ▸ h.table, ?_, ?_⟩
      · intro _ x hx
        rw [hledger] at hx
        rcases List.mem_or_eq_of_mem_set hx with hx | rfl
        · exact h.live rfl x hx
        · exact hlive₁.put hput
      · rw [hledger, ← hsame]
        exact (h.ledger.of_moves hmoves).commit hp howns hdirty hmarked rfl rfl rfl rfl hw₁
          (Ledger.laneOf_setWorker _ _ _ _ _) hplace hput events
          (fun id' hid => settle_set_of_ne kept s.instances _ hid)
          (by rw [settle_set_self kept hi, hdirty]; rfl)

/-- An instance is saved. -/
theorem Kept.save (h : s.Kept p false kept) (hp : p.type.Stores p.inUse) {id : Nat}
    (htype : ∀ i, s.instances[id]? = some i → i.record.type = p.type)
    (hmarked : ∀ i, s.instances[id]? = some i → i.record.lifecycle = .normal →
      i.record.Marked (kept id)) :
    (s.save id).2.Kept p false (settle kept s.instances (s.save id).2.instances) := by
  cases hi : s.instances[id]? with
  | none =>
      have hresult : s.save id = (.ok false, s) := by simp [Scope.save, hi]
      rw [hresult, settle_self]
      exact h
  | some i =>
      have hfits := h.ledger.instances id i hi (htype i hi)
      have hresult : (s.save id).2 = (s.commit id i).2 := by
        by_cases hnormal : i.record.lifecycle = .normal
        · have howns : s.ledger.Owns p.domain i.record.key id i := ⟨hi, htype i hi, rfl⟩
          have hget : s.source.repo.get i.record.key = some (.live id) := by
            rcases h.ledger.live_or_gone howns with ⟨hget, -⟩ | ⟨-, hgone⟩
            · exact hget
            · rw [hnormal] at hgone
              cases hgone
          have hnormal' : i.record.header.lifecycle = .normal := hnormal
          have hrepo : s.setRepo s.source.repo = s := rfl
          simp [Scope.save, hi, hfits.known, hfits.attached, hnormal',
            Repo.setOnStore_of_live hget, hrepo]
        · have hnormal' : ¬ i.record.header.lifecycle = .normal := hnormal
          simp [Scope.save, hi, hfits.known, hnormal']
      rw [hresult]
      exact h.commit hp hi (htype i hi) (hmarked i hi)

end Operations

end Scope

end WriteBehind
