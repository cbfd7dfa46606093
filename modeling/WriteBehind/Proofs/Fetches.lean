import Mathlib.Data.List.Forall2
import WriteBehind.Proofs.RowKeys

/-!
# What fetches cache

Whatever is fetched, one key, several or all rows that match a filter, ends in publishing
what was found of some keys, one after the other.  `Scope.Publishes` is such a sequence.
Each operation that fetches is shown to be one (`get_cases_of_shelves`,
`getMulti_cases_of_shelves`, `find_cases_of_shelves`), so what a single publication keeps is
kept by all of them.
-/

namespace WriteBehind

/-! ## Reading rows -/

namespace Storage

/-- A call of a table is refused, or it reads the rows that are there. -/
theorem read_cases (s : Storage) (table : TableRef) (stage : Stage)
    (rows : Rows → List Document) :
    (∃ e, (s.askTable table stage).1 = .error e ∧ (read table stage rows s).1 = .error e) ∨
      (read table stage rows s).1 = .ok (.ofRows (rows (s.rows table))) := by
  have hasked := content_askTable s table table stage
  cases hask : s.askTable table stage with
  | mk result s' =>
      rw [hask] at hasked
      cases result with
      | error e =>
          left
          exact ⟨e, rfl, by simp [read, hask]⟩
      | ok u =>
          right
          simp only [read, hask]
          rw [rows_congr hasked]

/-- No call of a table is refused. -/
def Answers (table : TableRef) (s : Storage) : Prop :=
  ∀ stage, (s.askTable table stage).1 = .ok ()

end Storage

theorem forall₂_of_mapM {α β ε : Type} {f : α → Except ε β} {l : List α} {found : List β}
    (h : l.mapM f = .ok found) : List.Forall₂ (fun a b => f a = .ok b) l found := by
  induction l generalizing found with
  | nil =>
      obtain rfl : [] = found := by simpa [pure, Except.pure] using h
      exact .nil
  | cons a l ih =>
      rw [List.mapM_cons] at h
      cases ha : f a with
      | error e => simp [ha, bind, Except.bind] at h
      | ok b =>
          cases hl : l.mapM f with
          | error e => simp [ha, hl, bind, Except.bind] at h
          | ok bs =>
              obtain rfl : b :: bs = found := by
                simpa [ha, hl, bind, Except.bind, pure, Except.pure] using h
              exact .cons ha (ih hl)

theorem exists_left_of_forall₂ {α β : Type} {R : α → β → Prop} {l : List α} {l' : List β}
    (h : List.Forall₂ R l l') {b : β} (hb : b ∈ l') : ∃ a ∈ l, R a b := by
  induction h with
  | nil => cases hb
  | cons hR _ ih =>
      rcases List.mem_cons.mp hb with rfl | hb
      · exact ⟨_, List.mem_cons_self, hR⟩
      · obtain ⟨a, ha, hR'⟩ := ih hb
        exact ⟨a, List.mem_cons_of_mem _ ha, hR'⟩

/-- A call of a table whose rows are all read fails, or each row gives its data. -/
theorem Storage.read_all_cases (s : Storage) (table : TableRef) (stage : Stage)
    (rows : Rows → List Document) (type : RecordType) :
    (∃ e, (Storage.read table stage rows s).1.bind
      (fun cursor => (cursor.allAs type.read).1) = .error e) ∨
    ∃ found, (Storage.read table stage rows s).1.bind
        (fun cursor => (cursor.allAs type.read).1) = .ok found ∧
      List.Forall₂ (fun row data => type.read (.ofDocument row) = .ok data)
        (rows (s.rows table)) found := by
  rcases read_cases s table stage rows with ⟨e, -, he⟩ | hok
  · left
    exact ⟨e, by rw [he]; rfl⟩
  · have hbind : (Storage.read table stage rows s).1.bind
        (fun cursor => (cursor.allAs type.read).1) =
          (rows (s.rows table)).mapM fun row => type.read (.ofDocument row) := by
      rw [hok]
      rfl
    rw [hbind]
    cases hall : (rows (s.rows table)).mapM fun row => type.read (.ofDocument row) with
    | error e => exact .inl ⟨e, rfl⟩
    | ok found => exact .inr ⟨found, rfl, forall₂_of_mapM hall⟩

theorem Rows.exists_of_mem_find {rows : Rows} {filter row : Document}
    (h : row ∈ rows.find filter) : ∃ text, rows.get? text = some row := by
  have hvalue : row ∈ rows.values := (List.mem_filter.mp h).1
  obtain ⟨⟨text, found⟩, hentry, rfl⟩ := List.mem_map.mp hvalue
  exact ⟨text, SortedMap.get?_eq_some_iff.mpr hentry⟩

/-- What a table says of a key: that it has no row, or the data of its row. -/
def Deposit.Finds (p : Deposit) (s : Storage) (key : Key) (data : Option Json) : Prop :=
  p.inUse key ∧
    match data with
    | none => (s.rows p.table).get? key.text = none
    | some data => p.type.Holds data ∧ p.type.keyOf data = key ∧
      ∃ row, (s.rows p.table).get? key.text = some row ∧
        p.type.read (.ofDocument row) = .ok data

/-- What a fetch gives of a key is what its row says: nothing without a row, and else an
instance with the data of the row. -/
def Deposit.Brings (p : Deposit) (s : Storage) (key : Key) (instances : List Instance) :
    Option Nat → Prop
  | none => (s.rows p.table).get? key.text = none
  | some id => ∃ i row, instances[id]? = some i ∧
      (s.rows p.table).get? key.text = some row ∧
        p.type.read (.ofDocument row) = .ok i.record.data

/-- An answer tells whether there is a row. -/
theorem Deposit.Brings.isSome {p : Deposit} {s : Storage} {key : Key}
    {instances : List Instance} {found : Option Nat} (h : p.Brings s key instances found) :
    found.isSome = ((s.rows p.table).get? key.text).isSome := by
  cases found with
  | none => exact (congrArg Option.isSome h).symm
  | some id =>
      obtain ⟨i, row, -, hrow, -⟩ := h
      exact (congrArg Option.isSome hrow).symm

/-- The row of a key is data of the type, if there is one. -/
def Deposit.Reads (p : Deposit) (s : Storage) (key : Key) : Prop :=
  ∀ row, (s.rows p.table).get? key.text = some row →
    ∃ data, p.type.read (.ofDocument row) = .ok data

namespace Scope

/-! ## Publishing -/

section Publish

variable {s : Scope} {key : Key}

/-- What is cached of a key stays. -/
theorem publish_of_cached {slot : Slot Nat} (hget : s.source.repo.get key = some slot)
    (data : Option Json) : s.publish key data = (slot.live?, s) := by
  cases data <;> simp only [publish, Repo.setOnFetch_of_cached hget] <;> rfl

/-- Data of a key of which nothing is cached become an instance. -/
theorem publish_of_found (hget : s.source.repo.get key = none) (data : Json) :
    s.publish key (some data) = (some s.instances.length,
      { s with
        source := { s.source with
          repo := (s.source.repo.setOnFetch key (some s.instances.length)).2 }
        instances := s.instances ++ [⟨.load s.type data, [s.birth]⟩] }) := by
  have hfetch := (Repo.get_setOnFetch_some hget s.instances.length key).1
  rw [publish]
  simp only [Option.map_some, hfetch]
  rfl

theorem publish_of_absent (hget : s.source.repo.get key = none) :
    s.publish key none = (none, s.setRepo (s.source.repo.setOnFetch key none).2) := by
  have hfetch := (Repo.get_setOnFetch_none hget key).1
  rw [publish]
  simp only [Option.map_none, hfetch]

/-- Publishing touches the cache only. -/
theorem publish_frame (s : Scope) (key : Key) (data : Option Json) :
    (s.publish key data).2.source.info = s.source.info ∧
      (s.publish key data).2.source.table = s.source.table ∧
      (s.publish key data).2.source.saver = s.source.saver ∧
      (s.publish key data).2.storage = s.storage := by
  simp only [publish]
  split <;> exact ⟨rfl, rfl, rfl, rfl⟩

/-- What is cached stays cached. -/
theorem get_publish_of_cached (s : Scope) (key : Key) (data : Option Json) {k : Key}
    {slot : Slot Nat} (hk : s.source.repo.get k = some slot) :
    (s.publish key data).2.source.repo.get k = some slot := by
  cases hget : s.source.repo.get key with
  | some other =>
      rw [publish_of_cached hget]
      exact hk
  | none =>
      have hne : key ≠ k := by
        rintro rfl
        rw [hget] at hk
        cases hk
      cases data with
      | none =>
          rw [publish_of_absent hget]
          exact ((Repo.get_setOnFetch_none hget k).2.2.trans (if_neg fun hno => hne hno.2)).trans hk
      | some data =>
          rw [publish_of_found hget]
          exact ((Repo.get_setOnFetch_some hget _ k).2.2.trans (if_neg hne)).trans hk

/-- An instance that comes of a publication is the live one of its key. -/
theorem get_publish_of_some {data : Option Json} {id : Nat}
    (hid : (s.publish key data).1 = some id) :
    (s.publish key data).2.source.repo.get key = some (.live id) := by
  cases hget : s.source.repo.get key with
  | some slot =>
      rw [publish_of_cached hget] at hid ⊢
      cases slot with
      | missing => cases hid
      | live id' => rw [hget, Option.some.inj hid]
  | none =>
      cases data with
      | none =>
          rw [publish_of_absent hget] at hid
          cases hid
      | some data =>
          rw [publish_of_found hget] at hid ⊢
          obtain rfl : s.instances.length = id := Option.some.inj hid
          exact (Repo.get_setOnFetch_some hget s.instances.length key).2.2.trans (if_pos rfl)

/-- Publications of what the table says of some keys, with the instances that came of
them. -/
inductive Publishes (p : Deposit) : Scope → List Nat → Scope → Prop where
  | refl (s : Scope) : Publishes p s [] s
  | step {s s' : Scope} {key : Key} {data : Option Json} {ids : List Nat}
      (hfinds : p.Finds s.storage key data) (hrest : Publishes p (s.publish key data).2 ids s') :
      Publishes p s ((s.publish key data).1.toList ++ ids) s'

variable {p : Deposit} {s' s'' : Scope} {ids ids' : List Nat}

theorem Publishes.trans (h : Publishes p s ids s') (h' : Publishes p s' ids' s'') :
    Publishes p s (ids ++ ids') s'' := by
  induction h with
  | refl s => exact h'
  | step hfinds _ ih =>
      rw [List.append_assoc]
      exact .step hfinds (ih h')

theorem publishes_one {data : Option Json} (hfinds : p.Finds s.storage key data) :
    Publishes p s (s.publish key data).1.toList (s.publish key data).2 := by
  have hstep := Publishes.step hfinds (.refl (s.publish key data).2)
  rwa [List.append_nil] at hstep

/-- What every publication keeps is kept by all of them. -/
theorem Publishes.induct {I : Scope → Prop} (h : Publishes p s ids s') (hs : I s)
    (hstep : ∀ s key data, I s → p.Finds s.storage key data → I (s.publish key data).2) :
    I s' := by
  induction h with
  | refl s => exact hs
  | step hfinds _ ih => exact ih (hstep _ _ _ hs hfinds)

theorem Publishes.kept (h : Publishes p s ids s') {k : Key} {slot : Slot Nat}
    (hk : s.source.repo.get k = some slot) : s'.source.repo.get k = some slot :=
  h.induct (I := fun x => x.source.repo.get k = some slot) hk
    fun x key data hx _ => get_publish_of_cached x key data hx

/-- Instances that are handed out are live. -/
theorem Publishes.handed (h : Publishes p s ids s') :
    ∀ id ∈ ids, ∃ key, p.inUse key ∧ s'.source.repo.get key = some (.live id) := by
  induction h with
  | refl s =>
      intro id hid
      cases hid
  | @step s s' key data ids hfinds hrest ih =>
      intro id hid
      rcases List.mem_append.mp hid with hid | hid
      · exact ⟨key, hfinds.1, hrest.kept (get_publish_of_some (Option.mem_toList.mp hid))⟩
      · exact ih id hid

theorem Publishes.frame (h : Publishes p s ids s') :
    s'.source.info = s.source.info ∧ s'.source.table = s.source.table ∧
      s'.source.saver = s.source.saver ∧ s'.storage = s.storage := by
  refine h.induct (I := fun x => x.source.info = s.source.info ∧
    x.source.table = s.source.table ∧ x.source.saver = s.source.saver ∧
    x.storage = s.storage) ⟨rfl, rfl, rfl, rfl⟩ ?_
  rintro x key data ⟨hinfo, htable, hsaver, hstorage⟩ -
  obtain ⟨hinfo', htable', hsaver', hstorage'⟩ := publish_frame x key data
  exact ⟨hinfo'.trans hinfo, htable'.trans htable, hsaver'.trans hsaver,
    hstorage'.trans hstorage⟩

end Publish

/-! ## Fetching is publishing -/

section Fetches

variable {p : Deposit} {ht : p.table ≠ .none → p.type.Files p.inUse}
  {untouched : Key → Prop} {before : Storage} {s : Scope} {key : Key}

theorem publishes_rows (s : Scope) (htype : s.type = p.type) {rows : List Json}
    (hrows : ∀ data ∈ rows, p.Finds s.storage (p.type.keyOf data) (some data)) :
    Publishes p s (s.publishRows rows).1 (s.publishRows rows).2 := by
  induction rows generalizing s with
  | nil => exact .refl s
  | cons data rows ih =>
      obtain ⟨hinfo, -, -, hstorage⟩ := publish_frame s (s.type.keyOf data) (some data)
      have htype' : (s.publish (s.type.keyOf data) (some data)).2.type = p.type := by
        rw [← htype]
        exact congrArg (·.model.record) hinfo
      have hrest := ih (s.publish (s.type.keyOf data) (some data)).2 htype' fun data hdata => by
        rw [hstorage]
        exact hrows data (List.mem_cons_of_mem _ hdata)
      have hfinds := hrows data List.mem_cons_self
      rw [← htype] at hfinds
      exact .step hfinds hrest

/-- Rows do not touch the keys that they do not have. -/
theorem get_publishRows (s : Scope) {rows : List Json} (hkey : key ∉ rows.map s.type.keyOf) :
    (s.publishRows rows).2.source.repo.get key = s.source.repo.get key := by
  induction rows generalizing s with
  | nil => rfl
  | cons data rows ih =>
      rw [List.map_cons, List.mem_cons, not_or] at hkey
      have htype : (s.publish (s.type.keyOf data) (some data)).2.type = s.type :=
        congrArg (·.model.record) (publish_frame s _ (some data)).1
      have hrest := ih (s.publish (s.type.keyOf data) (some data)).2 (by rw [htype]; exact hkey.2)
      refine hrest.trans ?_
      cases hget : s.source.repo.get (s.type.keyOf data) with
      | some slot => rw [publish_of_cached hget]
      | none =>
          rw [publish_of_found hget]
          exact (Repo.get_setOnFetch_some hget _ key).2.2.trans (if_neg (Ne.symm hkey.1))

/-- That a free key has no row brings no instance, and leaves other keys as free as they
were. -/
theorem publish_of_free (hfree : ∀ id, s.source.repo.get key ≠ some (.live id)) :
    (s.publish key none).1 = none ∧
      ∀ k, (∀ id, s.source.repo.get k ≠ some (.live id)) →
        ∀ id, (s.publish key none).2.source.repo.get k ≠ some (.live id) := by
  cases hget : s.source.repo.get key with
  | some slot =>
      rw [publish_of_cached hget]
      refine ⟨?_, fun k hk => hk⟩
      cases slot with
      | live id => exact absurd hget (hfree id)
      | missing => rfl
  | none =>
      rw [publish_of_absent hget]
      refine ⟨rfl, fun k hk id => ?_⟩
      have hslot := (Repo.get_setOnFetch_none hget k).2.2
      simp only [setRepo, hslot]
      split
      · simp
      · exact hk id

/-- That some keys have no row brings no instances. -/
theorem publishes_missing (s : Scope) {keys : List Key}
    (hkeys : ∀ key ∈ keys, p.Finds s.storage key none)
    (hfree : ∀ key ∈ keys, ∀ id, s.source.repo.get key ≠ some (.live id)) :
    Publishes p s [] (s.publishMissing keys) := by
  induction keys generalizing s with
  | nil => exact .refl s
  | cons key keys ih =>
      have hstep := publish_of_free (hfree key List.mem_cons_self)
      have hrest := ih (s.publish key none).2
        (fun key' hkey' => by
          rw [(publish_frame s key none).2.2.2]
          exact hkeys key' (List.mem_cons_of_mem _ hkey'))
        fun key' hkey' => hstep.2 key' (hfree key' (List.mem_cons_of_mem _ hkey'))
      have hall := Publishes.step (hkeys key List.mem_cons_self) hrest
      rwa [hstep.1] at hall

/-- The scope after the call of a search. -/
def searched (s : Scope) (filter : Document) : Scope :=
  { s with storage := (s.storage.find s.source.table filter).2 }

/-- The scope after the call of a fetch of several keys. -/
def fetchedMulti (s : Scope) (keys : List Key) : Scope :=
  { s with storage := (s.storage.fetchMulti s.source.table (keys.map (·.text))).2 }

theorem Shelves.searched (h : s.Shelves p ht untouched before) (filter : Document) :
    (s.searched filter).Shelves p ht untouched before :=
  h.setStorage (Storage.content_read _ _ _ _ _)

theorem Shelves.fetchedMulti (h : s.Shelves p ht untouched before) (keys : List Key) :
    (s.fetchedMulti keys).Shelves p ht untouched before :=
  h.setStorage (Storage.content_read _ _ _ _ _)

theorem Shelves.fetched (h : s.Shelves p ht untouched before) (key : Key) :
    (s.fetched key).Shelves p ht untouched before :=
  h.setStorage (Storage.content_read _ _ _ _ _)

/-- Data that were read from a row are what the table says of their key. -/
theorem Shelves.finds (h : s.Shelves p ht untouched before) {text : String} {row : Document}
    {data : Json} (hrow : (s.storage.rows p.table).get? text = some row)
    (hread : p.type.read (.ofDocument row) = .ok data) :
    p.Finds s.storage (p.type.keyOf data) (some data) := by
  obtain ⟨hdata, hused, htext⟩ := Shelves.read_row h hrow hread
  refine ⟨hused, hdata, rfl, row, ?_, hread⟩
  rw [htext]
  exact hrow

/-- A search fails, or it publishes rows that it has found. -/
theorem find_cases_of_shelves (h : s.Shelves p ht untouched before) (filter : Document) :
    (∃ e, s.find filter = (.error e, s.searched filter)) ∨
      ∃ ids s', Publishes p (s.searched filter) ids s' ∧ s.find filter = (.ok ids, s') := by
  have hshelves := Shelves.searched h filter
  have hrows : (s.searched filter).storage.rows p.table = s.storage.rows s.source.table := by
    rw [h.table]
    exact Storage.rows_congr (Storage.content_read _ _ _ _ _)
  rcases Storage.read_all_cases s.storage s.source.table (.find filter) (·.find filter) s.type with
    ⟨e, hcall⟩ | ⟨found, hcall, hpairs⟩
  · left
    refine ⟨e, ?_⟩
    simp only [Scope.find, Storage.find, Scope.type] at hcall ⊢
    rw [hcall]
    rfl
  · right
    rw [h.type_eq] at hpairs
    have hfinds : ∀ data ∈ found,
        p.Finds (s.searched filter).storage (p.type.keyOf data) (some data) := by
      intro data hdata
      obtain ⟨row, hrow, hread⟩ := exists_left_of_forall₂ hpairs hdata
      obtain ⟨text, hget⟩ := Rows.exists_of_mem_find hrow
      exact Shelves.finds hshelves (by rw [hrows]; exact hget) hread
    refine ⟨_, _, publishes_rows (s.searched filter) h.type_eq hfinds, ?_⟩
    simp only [Scope.find, Storage.find, Scope.type] at hcall ⊢
    rw [hcall]
    rfl

/-- A fetch of a key fails because the table refuses the call or has a row that does not
read, or it publishes what it has found. -/
theorem get_cases_of_shelves (h : s.Shelves p ht untouched before) (hused : p.inUse key)
    (hget : s.source.repo.get key = none) :
    (∃ e, s.get key = (.error e, s.fetched key) ∧
      ¬ (s.storage.Answers p.table ∧ p.Reads s.storage key)) ∨
    ∃ data, p.Finds (s.fetched key).storage key data ∧
      s.get key =
        (.ok ((s.fetched key).publish key data).1, ((s.fetched key).publish key data).2) := by
  have htype := h.type_eq
  have hshelves := Shelves.fetched h key
  have hrows : (s.fetched key).storage.rows p.table = s.storage.rows s.source.table := by
    rw [h.table]
    exact Storage.rows_congr (Storage.content_read _ _ _ _ _)
  rcases Storage.read_cases s.storage s.source.table (.fetch true key.text)
    (·.select [key.text]) with ⟨e, hasked, hfetch⟩ | hfetch
  · left
    refine ⟨e, get_of_error hget ?_, fun hno => ?_⟩
    · rw [Storage.fetch, hfetch]
      rfl
    · rw [h.table, hno.1] at hasked
      cases hasked
  · have hbind := congrArg (·.bind (firstData s.type)) hfetch
    cases hrow : (s.storage.rows s.source.table).get? key.text with
    | none =>
        right
        refine ⟨none, ⟨hused, ?_⟩, get_of_ok hget (hbind.trans (firstData_of_none s.type hrow))⟩
        exact (congrArg (SortedMap.get? · key.text) hrows).trans hrow
    | some row =>
        have hdata := hbind.trans (firstData_of_some s.type hrow)
        rw [htype] at hdata
        cases hread : p.type.read (.ofDocument row) with
        | error e =>
            left
            rw [hread, ← htype] at hdata
            refine ⟨e, get_of_error hget hdata, fun hno => ?_⟩
            rw [h.table] at hrow
            obtain ⟨data, hok⟩ := hno.2 row hrow
            rw [hread] at hok
            cases hok
        | ok data =>
            right
            rw [hread, ← htype] at hdata
            have hrow' := (congrArg (SortedMap.get? · key.text) hrows).trans hrow
            obtain ⟨hholds, hkey⟩ := Shelves.read_key hshelves hused hrow' hread
            exact ⟨some data, ⟨hused, hholds, hkey, row, hrow', hread⟩, get_of_ok hget hdata⟩

/-- A fetch of a key of which nothing is cached fails because the table refuses the call or
has a row that does not read, or it gives what the row says. -/
theorem get_answer_of_shelves (h : s.Shelves p ht untouched before) (hused : p.inUse key)
    (hget : s.source.repo.get key = none) :
    (∃ e, (s.get key).1 = .error e ∧ ¬ (s.storage.Answers p.table ∧ p.Reads s.storage key)) ∨
      ∃ found, (s.get key).1 = .ok found ∧ p.Brings s.storage key (s.get key).2.instances found := by
  have hrows : (s.fetched key).storage.rows p.table = s.storage.rows p.table :=
    Storage.rows_congr (Storage.content_read _ _ _ _ _)
  rcases get_cases_of_shelves h hused hget with ⟨e, hresult, hno⟩ | ⟨data, hfinds, hresult⟩
  · exact .inl ⟨e, by rw [hresult], hno⟩
  · right
    have hget' : (s.fetched key).source.repo.get key = none := hget
    rw [hresult]
    cases data with
    | none =>
        rw [publish_of_absent hget']
        exact ⟨none, rfl, (congrArg (SortedMap.get? · key.text) hrows).symm.trans hfinds.2⟩
    | some data =>
        obtain ⟨-, -, -, row, hrow, hread⟩ := hfinds
        rw [publish_of_found hget']
        refine ⟨_, rfl, _, row, List.getElem?_concat_length,
          (congrArg (SortedMap.get? · key.text) hrows).symm.trans hrow, hread⟩

/-- The instances of some keys that are cached are live. -/
theorem live_of_mem_getMulti {repo : Repo Key Nat} {keys : List Key} {id : Nat}
    (hid : id ∈ (repo.getMulti keys).1) : ∃ key ∈ keys, repo.get key = some (.live id) := by
  obtain ⟨key, hkey, hlive⟩ := List.mem_filterMap.mp hid
  obtain ⟨slot, hget, hslot⟩ := Option.bind_eq_some_iff.mp hlive
  cases slot with
  | missing => cases hslot
  | live id' => exact ⟨key, hkey, by rw [hget, Option.some.inj hslot]⟩

/-- A fetch of several keys has them all in the cache, fails, or publishes what it has
found of those that are not. -/
theorem getMulti_cases_of_shelves (h : s.Shelves p ht untouched before) {keys : List Key}
    (hused : ∀ key ∈ keys, p.inUse key) :
    s.getMulti keys = (.ok (s.source.repo.getMulti keys).1, s) ∨
    (∃ e, s.getMulti keys = (.error e, s.fetchedMulti (s.source.repo.getMulti keys).2)) ∨
    ∃ ids s', Publishes p (s.fetchedMulti (s.source.repo.getMulti keys).2) ids s' ∧
      s.getMulti keys = (.ok ((s.source.repo.getMulti keys).1 ++ ids), s') := by
  have hunknown : ∀ key ∈ (s.source.repo.getMulti keys).2, s.source.repo.get key = none := by
    intro key hkey
    have hnone := (List.mem_filter.mp hkey).2
    simpa using hnone
  have hunknownUsed : ∀ key ∈ (s.source.repo.getMulti keys).2, p.inUse key :=
    fun key hkey => hused key (List.mem_filter.mp hkey).1
  cases hrepo : s.source.repo.getMulti keys with
  | mk cached unknown =>
      rw [hrepo] at hunknown hunknownUsed
      dsimp only at hunknown hunknownUsed ⊢
      have hshelves := Shelves.fetchedMulti h unknown
      have hrows : (s.fetchedMulti unknown).storage.rows p.table =
          s.storage.rows s.source.table := by
        rw [h.table]
        exact Storage.rows_congr (Storage.content_read _ _ _ _ _)
      cases hempty : unknown.isEmpty with
      | true =>
          left
          simp only [Scope.getMulti, hrepo, hempty, if_true]
      | false =>
          right
          rcases Storage.read_all_cases s.storage s.source.table
            (.fetchMulti (unknown.map (·.text))) (·.select (unknown.map (·.text))) s.type with
            ⟨e, hcall⟩ | ⟨found, hcall, hpairs⟩
          · left
            refine ⟨e, ?_⟩
            simp only [Scope.getMulti, Storage.fetchMulti, hrepo, hempty, Scope.type] at hcall ⊢
            rw [hcall]
            rfl
          · right
            rw [h.type_eq] at hpairs
            have hfinds : ∀ data ∈ found,
                p.Finds (s.fetchedMulti unknown).storage (p.type.keyOf data) (some data) := by
              intro data hdata
              obtain ⟨row, hrow, hread⟩ := exists_left_of_forall₂ hpairs hdata
              obtain ⟨text, -, hget⟩ := List.mem_filterMap.mp hrow
              exact Shelves.finds hshelves (by rw [hrows]; exact hget) hread
            have hpublishes := publishes_rows (s.fetchedMulti unknown) h.type_eq hfinds
            have habsent : ∀ key ∈ unknown.filter (· ∉ found.map s.type.keyOf),
                p.Finds ((s.fetchedMulti unknown).publishRows found).2.storage key none := by
              intro key hkey
              obtain ⟨hkey, hnot⟩ := List.mem_filter.mp hkey
              refine ⟨hunknownUsed key hkey, ?_⟩
              rw [hpublishes.frame.2.2.2]
              refine Option.eq_none_iff_forall_ne_some.mpr fun row hrow => ?_
              have hselected : row ∈
                  (s.storage.rows s.source.table).select (unknown.map (·.text)) := by
                rw [hrows] at hrow
                exact List.mem_filterMap.mpr ⟨key.text, List.mem_map_of_mem hkey, hrow⟩
              obtain ⟨data, hdata, hread⟩ := exists_left_of_forall₂ hpairs.flip hselected
              have hdataKey := (Shelves.read_key hshelves (hunknownUsed key hkey) hrow hread).2
              have hin : key ∈ found.map s.type.keyOf := by
                rw [h.type_eq]
                exact List.mem_map.mpr ⟨data, hdata, hdataKey⟩
              simp [hin] at hnot
            have hfree : ∀ key ∈ unknown.filter (· ∉ found.map s.type.keyOf), ∀ id,
                ((s.fetchedMulti unknown).publishRows found).2.source.repo.get key ≠
                  some (.live id) := by
              intro key hkey id
              obtain ⟨hkey, hnot⟩ := List.mem_filter.mp hkey
              rw [get_publishRows (s.fetchedMulti unknown) (of_decide_eq_true hnot)]
              have hnone : (s.fetchedMulti unknown).source.repo.get key = none :=
                hunknown key hkey
              rw [hnone]
              simp
            have hall := hpublishes.trans (publishes_missing _ habsent hfree)
            rw [List.append_nil] at hall
            refine ⟨_, _, hall, ?_⟩
            simp only [Scope.getMulti, Storage.fetchMulti, hrepo, hempty, Scope.type] at hcall ⊢
            rw [hcall]
            rfl

end Fetches

/-! ## Creating is fetching first -/

section Creations

variable {s : Scope} {key : Key}

/-- A key that a fetch does not find is free. -/
theorem free_of_get_none (h : (s.get key).1 = .ok none) (id : Nat) :
    (s.get key).2.source.repo.get key ≠ some (.live id) := by
  cases hget : s.source.repo.get key with
  | some slot =>
      have hresult : s.get key = (.ok slot.live?, s) := by simp [Scope.get, hget]
      rw [hresult] at h ⊢
      intro hlive
      rw [hget, Option.some.injEq] at hlive
      rw [hlive] at h
      cases h
  | none =>
      cases hfetch : (s.storage.fetch s.source.table true key.text).1.bind (firstData s.type) with
      | error e =>
          rw [get_of_error hget hfetch] at h
          cases h
      | ok data =>
          have hget' : (s.fetched key).source.repo.get key = none := hget
          rw [get_of_ok hget hfetch] at h ⊢
          cases data with
          | some data =>
              rw [publish_of_found hget'] at h
              cases h
          | none =>
              rw [publish_of_absent hget']
              simp only [setRepo, (Repo.get_setOnFetch_none hget' key).2.2]
              split
              · simp
              · rw [hget']
                simp

/-- A key that a fetch finds is cached. -/
theorem live_of_get_some {id : Nat} (h : (s.get key).1 = .ok (some id)) :
    (s.get key).2.source.repo.get key = some (.live id) := by
  cases hget : s.source.repo.get key with
  | some slot =>
      have hresult : s.get key = (.ok slot.live?, s) := by simp [Scope.get, hget]
      rw [hresult, Except.ok.injEq] at h
      rw [hresult]
      cases slot with
      | missing => cases h
      | live id' => rw [hget, Option.some.inj h]
  | none =>
      cases hfetch : (s.storage.fetch s.source.table true key.text).1.bind (firstData s.type) with
      | error e =>
          rw [get_of_error hget hfetch] at h
          cases h
      | ok data =>
          have hget' : (s.fetched key).source.repo.get key = none := hget
          rw [get_of_ok hget hfetch] at h ⊢
          cases data with
          | none =>
              rw [publish_of_absent hget'] at h
              cases h
          | some data =>
              rw [publish_of_found hget'] at h ⊢
              obtain rfl : (s.fetched key).instances.length = id := by simpa using h
              exact (Repo.get_setOnFetch_some hget' _ key).2.2.trans (if_pos rfl)

/-- A record is created if its key is fetched and not found. -/
theorem create_cases (s : Scope) (data : Json) (tmp : Bool) :
    (∃ e, (s.get (s.type.keyOf data)).1 = .error e ∧
      s.create data { tmp } = (.error e, (s.get (s.type.keyOf data)).2)) ∨
    (∃ id, (s.get (s.type.keyOf data)).1 = .ok (some id) ∧
      s.create data { tmp } =
        (.error ((s.get (s.type.keyOf data)).2.duplicate (s.type.keyOf data)),
          (s.get (s.type.keyOf data)).2)) ∨
    ((s.get (s.type.keyOf data)).1 = .ok none ∧
      s.create data { tmp } = (.ok (s.get (s.type.keyOf data)).2.instances.length,
        { (s.get (s.type.keyOf data)).2 with
          source := { (s.get (s.type.keyOf data)).2.source with
            repo := ((s.get (s.type.keyOf data)).2.source.repo.setOnStore (s.type.keyOf data)
              (s.get (s.type.keyOf data)).2.instances.length).2 }
          instances := (s.get (s.type.keyOf data)).2.instances ++
            [⟨newRecord s.type data { tmp }, [.create]⟩] })) := by
  have hkey : (newRecord s.type data { tmp }).key = s.type.keyOf data := rfl
  have hfree : (s.get (s.type.keyOf data)).1 = .ok none → ∀ id,
      (s.get (s.type.keyOf data)).2.source.repo.get (s.type.keyOf data) ≠ some (.live id) :=
    free_of_get_none
  cases hget : s.get (s.type.keyOf data) with
  | mk result s' =>
      rw [hget] at hfree
      cases result with
      | error e => exact .inl ⟨e, rfl, by simp [Scope.create, hkey, hget]⟩
      | ok found =>
          cases found with
          | some id => exact .inr (.inl ⟨id, rfl, by simp [Scope.create, hkey, hget]⟩)
          | none => exact .inr (.inr ⟨rfl, create_eq hget (hfree rfl)⟩)

end Creations

end Scope

end WriteBehind
