import WriteBehind.Proofs.Roster

/-!
# Sources that remember what they have fetched

A source that is not volatile remembers of each key it was asked for what it has found, and
from then on the slot of the key answers, whatever has reached the table in the meantime.  A
key without a slot has never been touched, so nothing of it is on its way and its row is the
one from the start.  `Scope.Seated` says so, and every operation keeps it.  Each operation
also comes with what it does to the slots: fetches only fill them (`Scope.Fetched`), a
creation puts its instance into a slot that is free, and a save empties the slot of an
instance that is gone.
-/

namespace WriteBehind

/-! ## One source -/

namespace Scope

/-- The state of a source that remembers what it has fetched. -/
structure Seated (p : Deposit) (ht : p.table ≠ .none → p.type.Files p.inUse)
    (before : Storage) (s : Scope) : Prop where
  roster : Roster p s.source.repo s.instances
  keeps : s.source.repo.volatile = false
  shelves : s.Shelves p ht (fun key => p.inUse key ∧ s.source.repo.get key = none) before
  owned : ∀ (id : Nat) (i : Instance), s.instances[id]? = some i → i.record.type = p.type →
    i.record.header.expired = false ∧ s.source.repo.get i.record.key ≠ none

/-- What a fetch does to the slots, and the instances that it gives. -/
structure Fetched (p : Deposit) (s s' : Scope) (ids : List Nat) : Prop where
  kept : ∀ key slot, s.source.repo.get key = some slot → s'.source.repo.get key = some slot
  fresh : ∀ key, p.inUse key → s.source.repo.get key = none →
    s'.source.repo.get key = none ∨
    s'.source.repo.get key = some .missing ∧
      (s.storage.rows p.table).get? key.text = none ∨
    ∃ id, s'.source.repo.get key = some (.live id) ∧
      ((s.storage.rows p.table).get? key.text).isSome = true
  handed : ∀ id ∈ ids, ∃ key, p.inUse key ∧ s'.source.repo.get key = some (.live id)

section Seated

variable {p : Deposit} {ht : p.table ≠ .none → p.type.Files p.inUse} {before : Storage}
  {s s' s'' : Scope} {key : Key} {id : Nat} {i : Instance} {ids ids' : List Nat}

theorem Fetched.refl (p : Deposit) (s : Scope) : Fetched p s s [] :=
  ⟨fun _ _ h => h, fun _ _ h => .inl h, fun _ h => by cases h⟩

theorem Fetched.trans (h : Fetched p s s' ids) (h' : Fetched p s' s'' ids')
    (hrows : s'.storage.rows p.table = s.storage.rows p.table) :
    Fetched p s s'' (ids ++ ids') := by
  refine ⟨fun key slot hget => h'.kept key slot (h.kept key slot hget), ?_, ?_⟩
  · intro key hused hget
    rcases h.fresh key hused hget with hnone | ⟨hmissing, hrow⟩ | ⟨id, hlive, hrow⟩
    · rw [← hrows]
      exact h'.fresh key hused hnone
    · exact .inr (.inl ⟨h'.kept key _ hmissing, hrow⟩)
    · exact .inr (.inr ⟨id, h'.kept key _ hlive, hrow⟩)
  · intro id hid
    rcases List.mem_append.mp hid with hid | hid
    · obtain ⟨key, hused, hlive⟩ := h.handed id hid
      exact ⟨key, hused, h'.kept key _ hlive⟩
    · exact h'.handed id hid

theorem Seated.ignores : Ignores p (Seated p ht before) := by
  intro s instances storage h hcontent hsame
  refine ⟨h.roster.congr (fun _ _ _ => .rfl) (fun id i hcounts => hsame id i hcounts.type),
    h.keeps,
    (h.shelves.setStorage hcontent).setInstances instances, ?_⟩
  intro id i hi htype
  exact h.owned id i ((hsame id i htype).mp hi) htype

theorem Seated.model (h : s.Seated p ht before) : s.source.info.model = p.model :=
  h.shelves.model

/-- A search for what was already there, or to come. -/
theorem Seated.setStorage (h : s.Seated p ht before) {storage : Storage}
    (hcontent : storage.content p.table = s.storage.content p.table) :
    ({ s with storage } : Scope).Seated p ht before :=
  Seated.ignores s s.instances storage h hcontent fun _ _ _ => .rfl

/-! ## Fetching -/

/-- Nothing has expired. -/
theorem Seated.counts (h : s.Seated p ht before) (hi : s.instances[id]? = some i)
    (htype : i.record.type = p.type) : i.Counts p :=
  ⟨htype, (h.owned id i hi htype).1⟩

/-- Slots are filled, and never become unknown. -/
theorem Seated.of_filled (h : s.Seated p ht before)
    (hroster : Roster p s'.source.repo s'.instances)
    (hvolatile : s'.source.repo.volatile = s.source.repo.volatile)
    (hshelves : s'.Shelves p ht (fun key => p.inUse key ∧ s.source.repo.get key = none) before)
    (hfilled : ∀ key, s.source.repo.get key ≠ none → s'.source.repo.get key ≠ none)
    (howned : ∀ (id : Nat) (i : Instance), s'.instances[id]? = some i → i.record.type = p.type →
      i.record.header.expired = false ∧
        (s.source.repo.get i.record.key ≠ none ∨ s'.source.repo.get i.record.key ≠ none)) :
    s'.Seated p ht before := by
  refine ⟨hroster, hvolatile.trans h.keeps, Shelves.mono hshelves fun key hkey => ?_, ?_⟩
  · refine ⟨hkey.1, Classical.byContradiction fun hnot => ?_⟩
    exact hfilled key hnot hkey.2
  · intro id i hi htype
    obtain ⟨hknown, hold | hnew⟩ := howned id i hi htype
    · exact ⟨hknown, hfilled _ hold⟩
    · exact ⟨hknown, hnew⟩

/-- An instance was there before, or it is the one that has come. -/
theorem getElem?_concat_cases {instances : List Instance} {x : Instance}
    (h : (instances ++ [x])[id]? = some i) : instances[id]? = some i ∨ i = x := by
  by_cases hlt : id < instances.length
  · rw [List.getElem?_append_left hlt] at h
    exact .inl h
  · rw [List.getElem?_append_right (Nat.le_of_not_lt hlt)] at h
    exact .inr (List.mem_singleton.mp (List.mem_of_getElem? h))

/-- What is found of a key is published. -/
theorem Seated.publish (h : s.Seated p ht before) {data : Option Json}
    (hfinds : p.Finds s.storage key data) :
    (s.publish key data).2.Seated p ht before ∧
      Fetched p s (s.publish key data).2 (s.publish key data).1.toList := by
  have hroster := h.roster.publish h.shelves.type_eq hfinds
  have hkept : ∀ k slot, s.source.repo.get k = some slot →
      (s.publish key data).2.source.repo.get k = some slot :=
    fun k slot hk => get_publish_of_cached s key data hk
  have hfilled : ∀ k, s.source.repo.get k ≠ none →
      (s.publish key data).2.source.repo.get k ≠ none := by
    intro k hsome
    obtain ⟨slot, hslot⟩ := Option.ne_none_iff_exists'.mp hsome
    rw [hkept k slot hslot]
    simp
  have hhanded := (publishes_one hfinds).handed
  cases hget : s.source.repo.get key with
  | some slot =>
      rw [publish_of_cached hget] at hhanded ⊢
      exact ⟨h, fun _ _ h => h, fun _ _ h => .inl h, hhanded⟩
  | none =>
      -- Only the slot of the key changes, and it was not filled before.
      cases data with
      | none =>
          have hslot : ∀ k, (s.source.repo.setOnFetch key none).2.get k =
              if key = k then some .missing else s.source.repo.get k := by
            intro k
            have hany := (Repo.get_setOnFetch_none hget k).2.2
            simpa only [h.keeps, true_and] using hany
          rw [publish_of_absent hget] at hroster hkept hfilled hhanded ⊢
          refine ⟨h.of_filled hroster (Repo.get_setOnFetch_none hget key).2.1
            (h.shelves.setRepo _) hfilled
            (fun id i hi htype => (h.owned id i hi htype).imp_right .inl), hkept, ?_, hhanded⟩
          intro k _ hk
          by_cases hkey : key = k
          · subst hkey
            right
            left
            exact ⟨(hslot key).trans (if_pos rfl), hfinds.2⟩
          · left
            exact (hslot k).trans ((if_neg hkey).trans hk)
      | some data =>
          obtain ⟨hused, -, hkey, row, hrow, -⟩ := hfinds
          have hslot := fun k => (Repo.get_setOnFetch_some hget s.instances.length k).2.2
          have hself := (hslot key).trans (if_pos rfl)
          have htype := h.shelves.type_eq
          rw [publish_of_found hget] at hroster hkept hfilled hhanded ⊢
          refine ⟨h.of_filled hroster (Repo.get_setOnFetch_some hget s.instances.length key).2.1
            ((h.shelves.setRepo _).setInstances _) hfilled ?_, hkept, ?_, hhanded⟩
          · intro id i hi hitype
            rcases getElem?_concat_cases hi with hold | rfl
            · exact (h.owned id i hold hitype).imp_right .inl
            · refine ⟨rfl, .inr ?_⟩
              have hikey : (Record.load s.type data).key = key := by
                rw [htype]
                exact hkey
              rw [hikey, hself]
              simp
          · intro k _ hk
            by_cases hkk : key = k
            · subst hkk
              right
              right
              exact ⟨_, hself, by rw [hrow]; rfl⟩
            · left
              exact (hslot k).trans ((if_neg hkk).trans hk)

theorem Seated.publishes (h : s.Seated p ht before) (hpublishes : Publishes p s ids s') :
    s'.Seated p ht before ∧ Fetched p s s' ids := by
  induction hpublishes with
  | refl s => exact ⟨h, .refl p s⟩
  | @step s _ key data _ hfinds _ ih =>
      obtain ⟨hstep, hfetched⟩ := h.publish hfinds
      obtain ⟨hrest, hfetched'⟩ := ih hstep
      refine ⟨hrest, hfetched.trans hfetched' ?_⟩
      rw [(publish_frame s key data).2.2.2]

/-- Reading first does not change what is fetched. -/
theorem Fetched.of_read {storage : Storage}
    (hcontent : storage.content p.table = s.storage.content p.table)
    (h : Fetched p { s with storage } s' ids) : Fetched p s s' ids := by
  refine ⟨h.kept, ?_, h.handed⟩
  have hrows := Storage.rows_congr hcontent
  intro key hused hget
  rw [← hrows]
  exact h.fresh key hused hget

theorem Seated.find (h : s.Seated p ht before) (filter : Document) :
    (s.find filter).2.Seated p ht before ∧
      Fetched p s (s.find filter).2 ((s.find filter).1.toOption.getD []) := by
  have hcontent : (s.storage.find s.source.table filter).2.content p.table =
      s.storage.content p.table := Storage.content_read _ _ _ _ _
  have hread := h.setStorage hcontent
  rcases find_cases_of_shelves h.shelves filter with ⟨e, hresult⟩ | ⟨ids, s', hpublishes, hresult⟩
  · rw [hresult]
    exact ⟨hread, .of_read hcontent (.refl p _)⟩
  · obtain ⟨hs', hfetched⟩ := hread.publishes hpublishes
    rw [hresult]
    exact ⟨hs', .of_read hcontent hfetched⟩

theorem Seated.getMulti (h : s.Seated p ht before) {keys : List Key}
    (hused : ∀ key ∈ keys, p.inUse key) :
    (s.getMulti keys).2.Seated p ht before ∧
      Fetched p s (s.getMulti keys).2 ((s.getMulti keys).1.toOption.getD []) := by
  have hcontent : ∀ keys : List Key,
      (s.storage.fetchMulti s.source.table (keys.map (·.text))).2.content p.table =
        s.storage.content p.table := fun _ => Storage.content_read _ _ _ _ _
  have hcached : Fetched p s s (s.source.repo.getMulti keys).1 := by
    refine ⟨fun _ _ h => h, fun _ _ h => .inl h, fun id hid => ?_⟩
    obtain ⟨key, hkey, hlive⟩ := live_of_mem_getMulti hid
    exact ⟨key, hused key hkey, hlive⟩
  rcases getMulti_cases_of_shelves h.shelves hused with
    hresult | ⟨e, hresult⟩ | ⟨ids, s', hpublishes, hresult⟩
  · rw [hresult]
    exact ⟨h, hcached⟩
  · rw [hresult]
    exact ⟨h.setStorage (hcontent _), .of_read (hcontent _) (.refl p _)⟩
  · obtain ⟨hs', hfetched⟩ := (h.setStorage (hcontent _)).publishes hpublishes
    rw [hresult]
    exact ⟨hs', hcached.trans (.of_read (hcontent _) hfetched) rfl⟩

/-- A fetch of a key. -/
theorem Seated.get (h : s.Seated p ht before) (hused : p.inUse key) :
    (s.get key).2.Seated p ht before ∧
      Fetched p s (s.get key).2 (s.get key).1.toOption.join.toList := by
  have hcontent : (s.storage.fetch s.source.table true key.text).2.content p.table =
      s.storage.content p.table := Storage.content_read _ _ _ _ _
  cases hget : s.source.repo.get key with
  | some slot =>
      have hresult : s.get key = (.ok slot.live?, s) := by simp [Scope.get, hget]
      rw [hresult]
      refine ⟨h, fun _ _ h => h, fun _ _ h => .inl h, ?_⟩
      intro id hid
      cases slot with
      | missing => cases hid
      | live id' =>
          obtain rfl : id = id' := by simpa [Slot.live?, Except.toOption] using hid
          exact ⟨key, hused, hget⟩
  | none =>
      have hread := h.setStorage hcontent
      rcases get_cases_of_shelves h.shelves hused hget with ⟨e, hresult, -⟩ | ⟨data, hfinds, hresult⟩
      · rw [hresult]
        exact ⟨hread, .of_read hcontent (.refl p _)⟩
      · obtain ⟨hs', hfetched⟩ := Seated.publish hread hfinds
        rw [hresult]
        exact ⟨hs', .of_read hcontent hfetched⟩

/-- Whether a key is there: its slot is live, or it has none and its row is stored. -/
def Shows (p : Deposit) (before : Storage) (s : Scope) (key : Key) : Bool :=
  match s.source.repo.get key with
  | some slot => slot.live?.isSome
  | none => ((before.rows p.table).get? key.text).isSome

/-- A fetch of a key is refused by the table, or it tells whether the key is there. -/
theorem Seated.get_answer (h : s.Seated p ht before) (hused : p.inUse key)
    (hreads : p.Reads before key) :
    (∃ e, (s.get key).1 = .error e ∧ ¬ s.storage.Answers p.table) ∨
      ∃ found, (s.get key).1 = .ok found ∧ found.isSome = s.Shows p before key := by
  cases hget : s.source.repo.get key with
  | some slot =>
      right
      have hresult : s.get key = (.ok slot.live?, s) := by simp [Scope.get, hget]
      rw [hresult]
      exact ⟨_, rfl, by rw [Shows, hget]⟩
  | none =>
      have hsame := h.shelves.row_same ⟨hused, hget⟩
      have hreads' : p.Reads s.storage key := fun row hrow => hreads row (hsame.symm.trans hrow)
      rw [Shows, hget]
      dsimp only
      rw [← hsame]
      rcases get_answer_of_shelves h.shelves hused hget with
        ⟨e, herror, hno⟩ | ⟨found, hfound, hbrings⟩
      · exact .inl ⟨e, herror, fun hyes => hno ⟨hyes, hreads'⟩⟩
      · exact .inr ⟨found, hfound, hbrings.isSome⟩

/-! ## Creating -/

/-- A creation is a fetch that may be followed by a new instance in a free slot. -/
theorem Seated.create (h : s.Seated p ht before) {data : Json} (hdata : p.type.Holds data)
    (hused : p.inUse (p.type.keyOf data)) (tmp : Bool) :
    (s.create data { tmp }).2.Seated p ht before ∧
      ((s.create data { tmp }).1.toOption = none ∧ Fetched p s (s.create data { tmp }).2 [] ∨
      ∃ id s', (s.create data { tmp }).1 = .ok id ∧ Fetched p s s' [] ∧
        (∀ id', s'.source.repo.get (p.type.keyOf data) ≠ some (.live id')) ∧
        ∀ k, (s.create data { tmp }).2.source.repo.get k =
          if p.type.keyOf data = k then some (.live id) else s'.source.repo.get k) := by
  have htype := h.shelves.type_eq
  obtain ⟨hs', hfetched⟩ := h.get hused
  have hbare : Fetched p s (s.get (p.type.keyOf data)).2 [] :=
    ⟨hfetched.kept, hfetched.fresh, fun _ hid => by cases hid⟩
  have hcases := create_cases s data tmp
  rw [htype] at hcases
  rcases hcases with ⟨e, -, hresult⟩ | ⟨id, -, hresult⟩ | ⟨hnone, hresult⟩
  · rw [hresult]
    exact ⟨hs', .inl ⟨rfl, hbare⟩⟩
  · rw [hresult]
    exact ⟨hs', .inl ⟨rfl, hbare⟩⟩
  · have hfree := free_of_get_none hnone
    have hslot := fun k => (Repo.get_setOnStore_of_free hfree
      (s.get (p.type.keyOf data)).2.instances.length k).2.2
    have hroster := hs'.roster.add (Instance.member_new hdata hused tmp [.create]) hfree hslot
    have hself := (hslot (p.type.keyOf data)).trans (if_pos rfl)
    rw [hresult]
    refine ⟨hs'.of_filled hroster ?_ ((hs'.shelves.setRepo _).setInstances _) ?_ ?_,
      .inr ⟨_, _, rfl, hbare, hfree, hslot⟩⟩
    · exact (Repo.get_setOnStore_of_free hfree _ (p.type.keyOf data)).2.1
    · intro k hk
      dsimp only
      rw [hslot]
      split
      · simp
      · exact hk
    · intro id i hi hitype
      rcases getElem?_concat_cases hi with hold | rfl
      · exact (hs'.owned id i hold hitype).imp_right .inl
      · exact ⟨rfl, .inr fun hnone => Option.some_ne_none _ (hself.symm.trans hnone)⟩

/-- A creation is refused by the table, or it succeeds if the key is not there, and says that
there is a duplicate if it is. -/
theorem Seated.create_answer (h : s.Seated p ht before) {data : Json} (tmp : Bool)
    (hused : p.inUse (p.type.keyOf data)) (hreads : p.Reads before (p.type.keyOf data)) :
    (∃ e, (s.create data { tmp }).1 = .error e ∧ ¬ s.storage.Answers p.table) ∨
      (s.Shows p before (p.type.keyOf data) = false ∧ ∃ id, (s.create data { tmp }).1 = .ok id) ∨
      (s.Shows p before (p.type.keyOf data) = true ∧
        (s.create data { tmp }).1 = .error (.duplicate p.ns (p.type.keyOf data).text)) := by
  have hcases := create_cases s data tmp
  rw [h.shelves.type_eq] at hcases
  have hns : (s.get (p.type.keyOf data)).2.source.info.ns = p.ns :=
    congrArg (fun m : Model => m.record.ns) (h.get hused).1.model
  rcases h.get_answer hused hreads with ⟨e, herror, hno⟩ | ⟨found, hfound, hshows⟩
  · left
    rcases hcases with ⟨e', -, hresult⟩ | ⟨id, hok, -⟩ | ⟨hok, -⟩
    · exact ⟨e', by rw [hresult], hno⟩
    · rw [herror] at hok
      cases hok
    · rw [herror] at hok
      cases hok
  · right
    rw [← hshows]
    rcases hcases with ⟨e', herror, -⟩ | ⟨id, hok, hresult⟩ | ⟨hok, hresult⟩
    · rw [hfound] at herror
      cases herror
    · right
      rw [hfound, Except.ok.injEq] at hok
      rw [hok, hresult, duplicate, hns]
      exact ⟨rfl, rfl⟩
    · left
      rw [hfound, Except.ok.injEq] at hok
      rw [hok, hresult]
      exact ⟨rfl, _, rfl⟩

/-! ## Editing, saving and flushing -/

/-- An instance is replaced by one with its key. -/
theorem Seated.owned_set (h : s.Seated p ht before) (hi : s.instances[id]? = some i)
    (htype : i.record.type = p.type) {i' : Instance} (hkey : i'.record.key = i.record.key)
    (hknown : i'.record.header.expired = false) {id' : Nat} {x : Instance}
    (hx : (s.instances.set id i')[id']? = some x) (hx' : x.record.type = p.type) :
    x.record.header.expired = false ∧ s.source.repo.get x.record.key ≠ none := by
  by_cases hid : id = id'
  · subst hid
    rw [List.getElem?_set_self (List.getElem?_eq_some_iff.mp hi).1, Option.some.injEq] at hx
    rw [← hx, hkey]
    exact ⟨hknown, (h.owned id i hi htype).2⟩
  · rw [List.getElem?_set_ne hid] at hx
    exact h.owned id' x hx hx'

theorem Seated.edit (h : s.Seated p ht before) (hi : s.instances[id]? = some i)
    (htype : i.record.type = p.type) (e : Edit) (hholds : p.type.Holds (i.record.edit e).data)
    (hkey : (i.record.edit e).key = i.record.key) :
    ({ s with instances := s.instances.set id { i with record := i.record.edit e } } :
      Scope).Seated p ht before := by
  have hcounts := h.counts hi htype
  refine h.of_filled (h.roster.edit hi hcounts e hholds hkey) rfl (h.shelves.setInstances _)
    (fun _ hk => hk) ?_
  intro id' x hx hx'
  have hknown := (i.record.edit_editsTo e).2.expired.trans hcounts.known
  exact (h.owned_set hi htype hkey hknown hx hx').imp_right .inl

/-- A save of an instance that is gone empties its slot, if it still has it. -/
theorem Seated.save (h : s.Seated p ht before) (hi : s.instances[id]? = some i)
    (htype : i.record.type = p.type) :
    (s.save id).2.Seated p ht before ∧ (s.save id).1 = .ok i.record.header.dirty ∧
      ∀ key, (s.save id).2.source.repo.get key =
        if i.record.lifecycle.isGone = true ∧ s.source.repo.get i.record.key = some (.live id) ∧
            i.record.key = key then some .missing
        else s.source.repo.get key := by
  have hcounts := h.counts hi htype
  obtain ⟨hroster, hresult, hvolatile, hslot⟩ := h.roster.save hi hcounts
  rw [h.keeps] at hslot
  have hshelves := Shelves.save h.shelves h.roster hi hcounts fun key hkey =>
    ⟨hkey.1, fun heq => (h.owned id i hi htype).2 (heq ▸ hkey.2)⟩
  refine ⟨h.of_filled hroster hvolatile hshelves ?_ ?_, hresult, hslot⟩
  · intro key hkey
    rw [hslot]
    split
    · simp
    · exact hkey
  · obtain ⟨i', hinstances, hmember, hkey, -⟩ := h.roster.instances_save hi hcounts
    intro id' x hx hx'
    rw [hinstances] at hx
    exact (h.owned_set hi htype hkey hmember.known hx hx').imp_right .inl

/-- The saver and the table are at work, and the cache is not touched. -/
theorem Seated.of_shelves (h : s.Seated p ht before) (hrepo : s'.source.repo = s.source.repo)
    (hinstances : s'.instances = s.instances)
    (hshelves : s'.Shelves p ht (fun key => p.inUse key ∧ s.source.repo.get key = none) before) :
    s'.Seated p ht before := by
  refine ⟨?_, ?_, ?_, ?_⟩
  · rw [hrepo, hinstances]
    exact h.roster
  · rw [hrepo]
    exact h.keeps
  · rw [hrepo]
    exact hshelves
  · rw [hrepo, hinstances]
    exact h.owned

/-- Waiting for the flush of a saved instance changes nothing that the cache knows. -/
theorem Seated.sync (h : s.Seated p ht before) (hi : s.instances[id]? = some i)
    (htype : i.record.type = p.type) :
    (s.sync id).2.Seated p ht before ∧
      (s.sync id).2.source.repo = (s.save id).2.source.repo := by
  obtain ⟨hsaved, -⟩ := h.save hi htype
  obtain ⟨hshelves, hrepo, hinstances⟩ := Hauls.sync hsaved.shelves
  exact ⟨hsaved.of_shelves hrepo hinstances hshelves, hrepo⟩

theorem repo_stepSaver (s : Scope) (step : Saver → Storage → Saver × Storage) :
    (s.stepSaver step).source.repo = s.source.repo := by
  cases hsaver : s.source.saver <;> simp [stepSaver, hsaver]

theorem repo_syncAll (s : Scope) : s.syncAll.2.source.repo = s.source.repo := by
  cases hsaver : s.source.saver <;> simp [Scope.syncAll, hsaver]

theorem Seated.deliver (h : s.Seated p ht before) (n : Nat) (a : DeliveryStep) :
    (s.deliver n a).Seated p ht before :=
  h.of_shelves (repo_stepSaver s _) (Cache.instances_stepSaver s _) (h.shelves.deliver n a)

theorem Seated.syncAll (h : s.Seated p ht before) : s.syncAll.2.Seated p ht before :=
  h.of_shelves (repo_syncAll s) (Cache.instances_syncAll s) h.shelves.syncAll

theorem Seated.close (h : s.Seated p ht before) : s.close.Seated p ht before :=
  h.of_shelves (repo_stepSaver s _) (Cache.instances_stepSaver s _) h.shelves.close

end Seated

end Scope

end WriteBehind
