import WriteBehind.Proofs.DrySetups
import WriteBehind.Proofs.SlotHistory

/-!
# Fetching keys jointly and one by one

A fetch of one key publishes what the table says of the key (`Scope.getEach_eq`), and what is
cached already wins over that.  A fetch of several keys hands out the cached ones, publishes
the rows of the others, and publishes last that the remaining ones have none
(`Scope.getMulti_eq`).  Both are publications of the same keys, in two orders.

A publication that caches no new instance may be put off until after others
(`Scope.publishEach_publish`): it takes no number that another instance would get, and as it
is of another key, no slot either.  So it does not matter in which order such keys are
published (`Scope.publishEach_partition`), and fetching jointly is fetching one by one
(`Cache.getMulti_agrees`).
-/

namespace WriteBehind

namespace Scope

/-! ## What a publication does -/

/-- The slot of a key when what was found of it has been published. -/
def settled (s : Scope) (key : Key) (data : Option Json) : Option (Slot Nat) :=
  match s.source.repo.get key, data with
  | some slot, _ => some slot
  | none, some _ => some (.live s.instances.length)
  | none, none => if s.source.repo.volatile then none else some .missing

/-- The instance that a publication adds. -/
def loaded (s : Scope) (key : Key) (data : Option Json) : List Instance :=
  match s.source.repo.get key, data with
  | none, some data => [⟨.load s.type data, [s.birth]⟩]
  | _, _ => []

section Publications

variable {s s' s'' : Scope} {key : Key} {data : Option Json}

theorem settled_of_cached {slot : Slot Nat} (hget : s.source.repo.get key = some slot)
    (data : Option Json) : s.settled key data = some slot := by
  simp [settled, hget]

theorem settled_of_found (hget : s.source.repo.get key = none) (data : Json) :
    s.settled key (some data) = some (.live s.instances.length) := by
  simp [settled, hget]

theorem settled_of_absent (hget : s.source.repo.get key = none) :
    s.settled key none = if s.source.repo.volatile then none else some .missing := by
  simp [settled, hget]

/-- A publication settles the slot of its key, hands out what is live there then, and adds an
instance if it was free and there are data. -/
theorem publish_settles (s : Scope) (key : Key) (data : Option Json) :
    (s.publish key data).1 = (s.settled key data).bind Slot.live? ∧
      (s.publish key data).2.instances = s.instances ++ s.loaded key data ∧
      (s.publish key data).2.source.repo.volatile = s.source.repo.volatile ∧
      ∀ k, (s.publish key data).2.source.repo.get k =
        if key = k then s.settled key data else s.source.repo.get k := by
  cases hget : s.source.repo.get key with
  | some slot =>
      rw [publish_of_cached hget, settled_of_cached hget]
      refine ⟨rfl, by simp [loaded, hget], rfl, fun k => ?_⟩
      split
      next hk => rw [← hk, hget]
      · rfl
  | none =>
      cases data with
      | some data =>
          have hfetch := Repo.get_setOnFetch_some hget s.instances.length
          rw [publish_of_found hget, settled_of_found hget]
          exact ⟨rfl, by simp [loaded, hget], (hfetch key).2.1, fun k => (hfetch k).2.2⟩
      | none =>
          have hfetch := Repo.get_setOnFetch_none hget
          rw [publish_of_absent hget, settled_of_absent hget]
          refine ⟨?_, by simp [loaded, hget, setRepo], (hfetch key).2.1, fun k => ?_⟩
          · cases s.source.repo.volatile <;> rfl
          · rw [setRepo, (hfetch k).2.2]
            by_cases hk : key = k
            · subst hk
              cases hkeeps : s.source.repo.volatile <;> simp [hget]
            · simp [hk]

/-! ### Scopes alike -/

/-- Two scopes hold the same instances and the same slots.  Their storages and savers may
differ. -/
structure Alike (s s' : Scope) : Prop where
  info : s'.source.info = s.source.info
  volatile : s'.source.repo.volatile = s.source.repo.volatile
  slots : ∀ key, s'.source.repo.get key = s.source.repo.get key
  instances : s'.instances = s.instances

theorem Alike.refl (s : Scope) : Alike s s := ⟨rfl, rfl, fun _ => rfl, rfl⟩

theorem Alike.symm (h : Alike s s') : Alike s' s :=
  ⟨h.info.symm, h.volatile.symm, fun key => (h.slots key).symm, h.instances.symm⟩

theorem Alike.trans (h : Alike s s') (h' : Alike s' s'') : Alike s s'' :=
  ⟨h'.info.trans h.info, h'.volatile.trans h.volatile,
    fun key => (h'.slots key).trans (h.slots key), h'.instances.trans h.instances⟩

theorem Alike.settled_eq (h : Alike s s') (key : Key) (data : Option Json) :
    s'.settled key data = s.settled key data := by
  simp only [settled, h.slots, h.instances, h.volatile]

theorem Alike.loaded_eq (h : Alike s s') (key : Key) (data : Option Json) :
    s'.loaded key data = s.loaded key data := by
  simp only [loaded, h.slots, type, birth, h.info]

/-- A publication does the same where the same is held. -/
theorem Alike.publish (h : Alike s s') (key : Key) (data : Option Json) :
    (s'.publish key data).1 = (s.publish key data).1 ∧
      Alike (s.publish key data).2 (s'.publish key data).2 := by
  obtain ⟨hid, hinstances, hvolatile, hslots⟩ := publish_settles s key data
  obtain ⟨hid', hinstances', hvolatile', hslots'⟩ := publish_settles s' key data
  refine ⟨by rw [hid', hid, h.settled_eq], ?_, ?_, fun k => ?_, ?_⟩
  · rw [(publish_frame s' key data).1, (publish_frame s key data).1, h.info]
  · rw [hvolatile', hvolatile, h.volatile]
  · rw [hslots', hslots, h.settled_eq, h.slots]
  · rw [hinstances', hinstances, h.instances, h.loaded_eq]

/-! ### Publications that add no instance -/

/-- A publication adds no instance, as something is cached of the key or there are no data. -/
def Quieted (s : Scope) (key : Key) (data : Option Json) : Prop :=
  s.source.repo.get key ≠ none ∨ data = none

theorem Quieted.loaded_eq (h : s.Quieted key data) : s.loaded key data = [] := by
  simp only [loaded]
  split
  next hget => simp [Quieted, hget] at h
  · rfl

theorem Quieted.publish (h : s.Quieted key data) (k : Key) (other : Option Json) :
    (s.publish k other).2.Quieted key data := by
  refine h.imp_left fun hcached => ?_
  obtain ⟨slot, hget⟩ := Option.ne_none_iff_exists'.mp hcached
  rw [get_publish_of_cached s k other hget]
  exact Option.some_ne_none slot

/-- A publication that adds no instance commutes with that of another key. -/
theorem publish_comm (h : s.Quieted key data) {k : Key} (hk : key ≠ k) (other : Option Json) :
    ((s.publish key data).2.publish k other).1 = (s.publish k other).1 ∧
      ((s.publish k other).2.publish key data).1 = (s.publish key data).1 ∧
      Alike ((s.publish key data).2.publish k other).2
        ((s.publish k other).2.publish key data).2 := by
  obtain ⟨hid, hinstances, hvolatile, hslots⟩ := publish_settles s key data
  obtain ⟨hid', hinstances', hvolatile', hslots'⟩ := publish_settles s k other
  obtain ⟨hlast, hadded, hkeeps, hends⟩ := publish_settles (s.publish key data).2 k other
  obtain ⟨hlast', hadded', hkeeps', hends'⟩ := publish_settles (s.publish k other).2 key data
  have hinfo := (publish_frame s key data).1
  have hinfo' := (publish_frame s k other).1
  rw [h.loaded_eq, List.append_nil] at hinstances
  have hother : (s.publish key data).2.settled k other = s.settled k other := by
    simp only [settled, hslots, if_neg hk, hinstances, hvolatile]
  have hnew : (s.publish key data).2.loaded k other = s.loaded k other := by
    simp only [loaded, hslots, if_neg hk, type, birth, hinfo]
  have hown : (s.publish k other).2.settled key data = s.settled key data := by
    simp only [settled, hslots', if_neg hk.symm, hvolatile']
    rcases h with hcached | rfl
    · obtain ⟨slot, hget⟩ := Option.ne_none_iff_exists'.mp hcached
      rw [hget]
    · cases s.source.repo.get key <;> rfl
  refine ⟨by rw [hlast, hother, hid'], by rw [hlast', hown, hid], ?_, ?_, fun k' => ?_, ?_⟩
  · rw [(publish_frame _ key data).1, hinfo', (publish_frame _ k other).1, hinfo]
  · rw [hkeeps', hvolatile', hkeeps, hvolatile]
  · rw [hends', hends, hown, hother, hslots', hslots]
    split
    next hkey => rw [if_neg fun heq => hk (hkey.trans heq.symm)]
    · rfl
  · rw [hadded', (h.publish k other).loaded_eq, List.append_nil, hinstances', hadded, hinstances,
      hnew]

/-! ## Publishing several keys -/

/-- Publications of what is known of some keys, one after the other. -/
def publishEach (known : Key → Option Json) (s : Scope) : List Key → List (Option Nat) × Scope
  | [] => ([], s)
  | key :: keys =>
    let (id, s) := s.publish key (known key)
    let (ids, s) := publishEach known s keys
    (id :: ids, s)

variable {known : Key → Option Json} {keys : List Key}

theorem Alike.publishEach (h : Alike s s') (known : Key → Option Json) (keys : List Key) :
    (publishEach known s' keys).1 = (publishEach known s keys).1 ∧
      Alike (publishEach known s keys).2 (publishEach known s' keys).2 := by
  induction keys generalizing s s' with
  | nil => exact ⟨rfl, h⟩
  | cons key keys ih =>
      obtain ⟨hid, hnext⟩ := h.publish key (known key)
      obtain ⟨hids, hlast⟩ := ih hnext
      exact ⟨congrArg₂ List.cons hid hids, hlast⟩

theorem get_publishEach_of_cached {slot : Slot Nat} (hget : s.source.repo.get key = some slot)
    (known : Key → Option Json) (keys : List Key) :
    (publishEach known s keys).2.source.repo.get key = some slot := by
  induction keys generalizing s with
  | nil => exact hget
  | cons k keys ih => exact ih (get_publish_of_cached s k (known k) hget)

/-- A publication that adds no instance may as well come last. -/
theorem publishEach_publish (h : s.Quieted key data) (known : Key → Option Json)
    (hkey : key ∉ keys) :
    (publishEach known (s.publish key data).2 keys).1 = (publishEach known s keys).1 ∧
      ((publishEach known s keys).2.publish key data).1 = (s.publish key data).1 ∧
      Alike (publishEach known (s.publish key data).2 keys).2
        ((publishEach known s keys).2.publish key data).2 := by
  induction keys generalizing s with
  | nil => exact ⟨rfl, rfl, .refl _⟩
  | cons k keys ih =>
      rw [List.mem_cons, not_or] at hkey
      obtain ⟨hid, hquiet, hnext⟩ := publish_comm h hkey.1 (known k)
      obtain ⟨hids, hquiet', hlast⟩ := ih (h.publish k (known k)) hkey.2
      obtain ⟨hids', hlast'⟩ := hnext.symm.publishEach known keys
      refine ⟨congrArg₂ List.cons hid (hids'.trans hids), hquiet'.trans hquiet, ?_⟩
      exact hlast'.symm.trans hlast

/-- Keys whose publication adds no instance may be published after the others. -/
theorem publishEach_partition (first : Key → Bool)
    (hquiet : ∀ key ∈ keys, first key = false → s.Quieted key (known key)) :
    (publishEach known s keys).1.Perm
        ((publishEach known s (keys.filter first)).1 ++
          (publishEach known (publishEach known s (keys.filter first)).2
            (keys.filter (!first ·))).1) ∧
      Alike (publishEach known s keys).2
        (publishEach known (publishEach known s (keys.filter first)).2
          (keys.filter (!first ·))).2 := by
  induction keys generalizing s with
  | nil => exact ⟨.refl _, .refl s⟩
  | cons key keys ih =>
      obtain ⟨hperm, halike⟩ := ih (s := (s.publish key (known key)).2) fun k hk hlast =>
        (hquiet k (List.mem_cons_of_mem _ hk) hlast).publish key (known key)
      cases hfirst : first key with
      | true =>
          simp only [List.filter_cons, hfirst, Bool.not_true, if_true, Bool.false_eq_true, if_false]
          exact ⟨hperm.cons _, halike⟩
      | false =>
          simp only [List.filter_cons, hfirst, Bool.not_false, if_true, Bool.false_eq_true, if_false]
          -- This key moves behind those that go first, none of which it is.
          have hkey : key ∉ keys.filter first := fun hmem => by
            rw [(List.mem_filter.mp hmem).2] at hfirst
            cases hfirst
          obtain ⟨hids, hid, hnext⟩ := publishEach_publish
            (hquiet key List.mem_cons_self hfirst) known hkey
          obtain ⟨hids', hlast⟩ := hnext.publishEach known (keys.filter (!first ·))
          refine ⟨?_, halike.trans hlast⟩
          simp only [publishEach]
          rw [hid, hids', ← hids]
          exact (hperm.cons _).trans List.perm_middle.symm

/-- Keys of which something is cached are published in vain. -/
theorem publishEach_of_cached (hcached : ∀ key ∈ keys, s.source.repo.get key ≠ none)
    (known : Key → Option Json) :
    publishEach known s keys =
      (keys.map fun key => (s.source.repo.get key).bind Slot.live?, s) := by
  induction keys with
  | nil => rfl
  | cons key keys ih =>
      obtain ⟨slot, hget⟩ := Option.ne_none_iff_exists'.mp (hcached key List.mem_cons_self)
      have hrest := ih fun k hk => hcached k (List.mem_cons_of_mem _ hk)
      simp only [publishEach, publish_of_cached hget, hrest, List.map_cons, hget]
      rfl

/-- Rows are published under the keys that they were asked for, if these are the keys of
their data. -/
theorem publishRows_eq
    (hown : ∀ key ∈ keys, ∀ data, known key = some data → s.type.keyOf data = key) :
    s.publishRows (keys.filterMap known) =
      ((publishEach known s (keys.filter fun key => (known key).isSome)).1.reduceOption,
        (publishEach known s (keys.filter fun key => (known key).isSome)).2) := by
  induction keys generalizing s with
  | nil => rfl
  | cons key keys ih =>
      have hrest := fun k hk => hown k (List.mem_cons_of_mem _ hk)
      cases hknown : known key with
      | none =>
          simp only [List.filterMap_cons, List.filter_cons, hknown, Option.isSome_none,
            Bool.false_eq_true, if_false]
          exact ih hrest
      | some data =>
          have htype : (s.publish key (some data)).2.type = s.type :=
            congrArg (·.model.record) (publish_frame s key (some data)).1
          have hnext := ih (s := (s.publish key (some data)).2) (by rw [htype]; exact hrest)
          simp only [List.filterMap_cons, List.filter_cons, hknown, Option.isSome_some, if_true,
            publishRows, hown key List.mem_cons_self data hknown, publishEach, hnext]
          cases (s.publish key (some data)).1 <;> rfl

/-- What is missing is published as such, and brings no instance. -/
theorem publishMissing_eq (habsent : ∀ key ∈ keys, known key = none)
    (hfree : ∀ key ∈ keys, ∀ id, s.source.repo.get key ≠ some (.live id)) :
    (publishEach known s keys).1.reduceOption = [] ∧
      s.publishMissing keys = (publishEach known s keys).2 := by
  induction keys generalizing s with
  | nil => exact ⟨rfl, rfl⟩
  | cons key keys ih =>
      obtain ⟨hnone, hstays⟩ := publish_of_free (hfree key List.mem_cons_self)
      obtain ⟨hids, hlast⟩ := ih (s := (s.publish key none).2)
        (fun k hk => habsent k (List.mem_cons_of_mem _ hk))
        fun k hk => hstays k (hfree k (List.mem_cons_of_mem _ hk))
      simp only [publishEach, publishMissing, habsent key List.mem_cons_self, hnone,
        List.reduceOption_cons_of_none]
      exact ⟨hids, hlast⟩

/-- The keys that no row has are those of which nothing is known. -/
theorem missing_iff
    (hown : ∀ key ∈ keys, ∀ data, known key = some data → s.type.keyOf data = key)
    (hkey : key ∈ keys) :
    key ∉ (keys.filterMap known).map s.type.keyOf ↔ known key = none := by
  constructor
  · intro hnot
    refine Option.eq_none_iff_forall_ne_some.mpr fun data hknown => hnot ?_
    have hdata : data ∈ keys.filterMap known := List.mem_filterMap.mpr ⟨key, hkey, hknown⟩
    exact List.mem_map.mpr ⟨data, hdata, hown key hkey data hknown⟩
  · intro hnone hmem
    obtain ⟨data, hdata, hdataKey⟩ := List.mem_map.mp hmem
    obtain ⟨k, hk, hknown⟩ := List.mem_filterMap.mp hdata
    obtain rfl : k = key := (hown k hk data hknown).symm.trans hdataKey
    rw [hnone] at hknown
    cases hknown

theorem filter_missing_eq
    (hown : ∀ key ∈ keys, ∀ data, known key = some data → s.type.keyOf data = key) :
    keys.filter (· ∉ (keys.filterMap known).map s.type.keyOf) =
      keys.filter fun key => !(known key).isSome := by
  refine List.filter_congr fun key hkey => ?_
  cases hknown : known key with
  | none => exact decide_eq_true ((missing_iff hown hkey).mpr hknown)
  | some data =>
      refine decide_eq_false fun hnot => ?_
      rw [(missing_iff hown hkey).mp hnot] at hknown
      cases hknown

/-- Unknown keys may be published as their rows first, and then as missing, if every row has
the key that it was asked for. -/
theorem publishEach_of_unknown (hfree : ∀ key ∈ keys, s.source.repo.get key = none)
    (hown : ∀ key ∈ keys, ∀ data, known key = some data → s.type.keyOf data = key) :
    (publishEach known s keys).1.reduceOption.Perm (s.publishRows (keys.filterMap known)).1 ∧
      Alike (publishEach known s keys).2
        ((s.publishRows (keys.filterMap known)).2.publishMissing
          (keys.filter (· ∉ (keys.filterMap known).map s.type.keyOf))) := by
  have hmissing := filter_missing_eq hown
  have hquiet : ∀ key ∈ keys, (known key).isSome = false → s.Quieted key (known key) :=
    fun key _ hnone => .inr (Option.not_isSome_iff_eq_none.mp (by simp [hnone]))
  obtain ⟨hperm, halike⟩ := publishEach_partition (fun key => (known key).isSome) hquiet
  have hrows := publishRows_eq hown
  have hlast : ∀ key ∈ keys.filter (· ∉ (keys.filterMap known).map s.type.keyOf),
      known key = none ∧ ∀ id,
        (s.publishRows (keys.filterMap known)).2.source.repo.get key ≠ some (.live id) := by
    intro key hkey
    obtain ⟨hkey, hnot⟩ := List.mem_filter.mp hkey
    refine ⟨(missing_iff hown hkey).mp (of_decide_eq_true hnot), fun id => ?_⟩
    rw [get_publishRows s (of_decide_eq_true hnot), hfree key hkey]
    exact Option.some_ne_none _ ∘ Eq.symm
  obtain ⟨hnothing, hlast⟩ := publishMissing_eq (fun key hkey => (hlast key hkey).1)
    fun key hkey => (hlast key hkey).2
  rw [hmissing, hrows] at hnothing hlast
  rw [hmissing, hrows, hlast]
  refine ⟨?_, halike⟩
  have hall : List.Perm _ (List.reduceOption _) := hperm.filterMap id
  rwa [List.reduceOption_append, hnothing, List.append_nil] at hall

/-- Keys of which something is cached may be published after the others. -/
theorem publishEach_getMulti (known : Key → Option Json) (s : Scope) (keys : List Key) :
    (publishEach known s keys).1.reduceOption.Perm ((s.source.repo.getMulti keys).1 ++
        (publishEach known s (s.source.repo.getMulti keys).2).1.reduceOption) ∧
      Alike (publishEach known s keys).2
        (publishEach known s (s.source.repo.getMulti keys).2).2 := by
  have hquiet : ∀ key ∈ keys, (s.source.repo.get key).isNone = false →
      s.Quieted key (known key) :=
    fun key _ hcached => .inl fun hnone => by simp [hnone] at hcached
  obtain ⟨hperm, halike⟩ :=
    publishEach_partition (fun key => (s.source.repo.get key).isNone) hquiet
  have hunknown : keys.filter (fun key => (s.source.repo.get key).isNone) =
      (s.source.repo.getMulti keys).2 := rfl
  rw [hunknown] at hperm halike
  have hslots : ∀ key ∈ keys.filter fun key => !(s.source.repo.get key).isNone,
      (publishEach known s (s.source.repo.getMulti keys).2).2.source.repo.get key =
        s.source.repo.get key ∧ s.source.repo.get key ≠ none := by
    intro key hkey
    obtain ⟨slot, hget⟩ := Option.isSome_iff_exists.mp (by simpa using (List.mem_filter.mp hkey).2)
    rw [hget]
    exact ⟨get_publishEach_of_cached hget known _, Option.some_ne_none slot⟩
  have hcached : ∀ key ∈ keys.filter fun key => !(s.source.repo.get key).isNone,
      (publishEach known s (s.source.repo.getMulti keys).2).2.source.repo.get key ≠ none :=
    fun key hkey => (hslots key hkey).1 ▸ (hslots key hkey).2
  have hvain := publishEach_of_cached hcached known
  have hlive : (publishEach known (publishEach known s (s.source.repo.getMulti keys).2).2
      (keys.filter fun key => !(s.source.repo.get key).isNone)).1.reduceOption =
        (s.source.repo.getMulti keys).1 := by
    rw [hvain, List.map_congr_left fun key hkey => by rw [(hslots key hkey).1]]
    rw [List.reduceOption, List.filterMap_map, List.filterMap_filter]
    refine List.filterMap_congr fun key _ => ?_
    cases hget : s.source.repo.get key <;> simp [hget]
  rw [hvain] at halike
  have hall : List.Perm _ (List.reduceOption _) := hperm.filterMap id
  rw [List.reduceOption_append, hlive] at hall
  exact ⟨hall.trans List.perm_append_comm, halike⟩

end Publications

/-! ## Fetching one by one -/

/-- Fetches of some keys, one after the other. -/
def getEach (s : Scope) : List Key → List (Except Error (Option Nat)) × Scope
  | [] => ([], s)
  | key :: keys =>
    let (found, s) := s.get key
    let (more, s) := s.getEach keys
    (found :: more, s)

/-- What the table says of a key when it is asked for it alone. -/
def Tells (s : Scope) (key : Key) (data : Option Json) : Prop :=
  (s.storage.fetch s.source.table true key.text).1.bind (firstData s.type) = .ok data

section Fetches

variable {s s' : Scope} {key : Key} {keys : List Key} {known : Key → Option Json}

/-- A fetch of a key publishes what the table says of it, unless something is cached. -/
theorem get_eq (hknown : s.source.repo.get key = none → s.Tells key (known key)) :
    (s.get key).1 = .ok (s.publish key (known key)).1 ∧
      Alike (s.publish key (known key)).2 (s.get key).2 ∧
      (s.get key).2.source.table = s.source.table ∧
      Storage.ReadsSame s.source.table s.storage (s.get key).2.storage := by
  have hsame : Storage.ReadsSame s.source.table s.storage (s.fetched key).storage :=
    Storage.readsSame_of_content (Storage.content_read _ _ _ _ _) (Storage.refused_read _ _ _ _)
  cases hget : s.source.repo.get key with
  | some slot =>
      have hresult : s.get key = (.ok slot.live?, s) := by simp [get, hget]
      rw [hresult, publish_of_cached hget]
      exact ⟨rfl, .refl s, rfl, fun _ _ => rfl, fun _ => rfl, fun _ => rfl⟩
  | none =>
      have halike : Alike s (s.fetched key) := ⟨rfl, rfl, fun _ => rfl, rfl⟩
      obtain ⟨hid, hnext⟩ := halike.publish key (known key)
      obtain ⟨-, htable, -, hstorage⟩ := publish_frame (s.fetched key) key (known key)
      rw [get_of_ok hget (hknown hget)]
      refine ⟨congrArg Except.ok hid, hnext, htable, ?_⟩
      rw [hstorage]
      exact hsame

/-- Fetches one after the other publish what the table says of the keys. -/
theorem getEach_eq
    (hknown : ∀ key ∈ keys, s.source.repo.get key = none → s.Tells key (known key)) :
    (s.getEach keys).1 = (publishEach known s keys).1.map .ok ∧
      Alike (publishEach known s keys).2 (s.getEach keys).2 := by
  induction keys generalizing s with
  | nil => exact ⟨rfl, .refl s⟩
  | cons key keys ih =>
      obtain ⟨hid, halike, htable, hsame⟩ := get_eq (hknown key List.mem_cons_self)
      have hrest : ∀ k ∈ keys, (s.get key).2.source.repo.get k = none →
          (s.get key).2.Tells k (known k) := by
        intro k hk hfree
        have htype : (s.get key).2.type = s.type :=
          congrArg (·.model.record) (halike.info.trans (publish_frame s key (known key)).1)
        have hfree' : s.source.repo.get k = none := by
          by_contra hcached
          obtain ⟨slot, hget⟩ := Option.ne_none_iff_exists'.mp hcached
          rw [halike.slots, get_publish_of_cached s key _ hget] at hfree
          cases hfree
        rw [Tells, htable, hsame.fetch, htype]
        exact hknown k (List.mem_cons_of_mem _ hk) hfree'
      obtain ⟨hids, hlast⟩ := ih hrest
      obtain ⟨hids', hlast'⟩ := halike.publishEach known keys
      refine ⟨congrArg₂ List.cons hid (hids.trans (congrArg _ hids')), ?_⟩
      exact hlast'.trans hlast

/-! ## Fetching jointly -/

/-- The data that the table holds of a key. -/
def rowData (s : Scope) (key : Key) : Option Json :=
  ((s.storage.rows s.source.table).get? key.text).bind fun row =>
    (s.type.read (.ofDocument row)).toOption

/-- The row of a key is data of the source's type, if there is one. -/
def Readable (s : Scope) (key : Key) : Prop :=
  ∀ row, (s.storage.rows s.source.table).get? key.text = some row →
    ∃ data, s.type.read (.ofDocument row) = .ok data

theorem FindsOwn.keyOf_eq (h : s.FindsOwn key) {data : Json} (hdata : s.rowData key = some data) :
    s.type.keyOf data = key := by
  obtain ⟨row, hrow, hread⟩ := Option.bind_eq_some_iff.mp hdata
  refine h row data hrow ?_
  cases hresult : s.type.read (.ofDocument row) with
  | error e =>
      rw [hresult] at hread
      cases hread
  | ok found =>
      rw [hresult] at hread
      exact congrArg Except.ok (Option.some.inj hread)

/-- A table that does not refuse the call tells of a key what its row says. -/
theorem tells_rowData
    (hasked : (s.storage.askTable s.source.table (.fetch true key.text)).1 = .ok ())
    (hreadable : s.Readable key) : s.Tells key (s.rowData key) := by
  rw [Tells, Storage.fetch, Storage.read_fst, hasked]
  cases hrow : (s.storage.rows s.source.table).get? key.text with
  | none =>
      rw [rowData, hrow]
      exact firstData_of_none s.type hrow
  | some row =>
      obtain ⟨data, hread⟩ := hreadable row hrow
      rw [rowData, hrow, Option.bind_some, hread]
      exact (firstData_of_some s.type hrow).trans (by rw [hread]; rfl)

/-- The rows of some keys that were all read. -/
theorem filterMap_rowData {found : List Json}
    (h : List.Forall₂ (fun row data => s.type.read (.ofDocument row) = .ok data)
      ((s.storage.rows s.source.table).select (keys.map (·.text))) found) :
    found = keys.filterMap s.rowData ∧ ∀ key ∈ keys, s.Readable key := by
  induction keys generalizing found with
  | nil => exact ⟨List.forall₂_nil_left_iff.mp h, List.forall_mem_nil _⟩
  | cons key keys ih =>
      cases hrow : (s.storage.rows s.source.table).get? key.text with
      | none =>
          rw [Rows.select, List.map_cons, List.filterMap_cons_none hrow] at h
          obtain ⟨hfound, hreadable⟩ := ih h
          refine ⟨?_, List.forall_mem_cons.mpr ⟨fun row hrow' => ?_, hreadable⟩⟩
          · rw [List.filterMap_cons_none (by rw [rowData, hrow, Option.bind_none]), hfound]
          · rw [hrow] at hrow'
            cases hrow'
      | some row =>
          rw [Rows.select, List.map_cons, List.filterMap_cons_some hrow] at h
          obtain ⟨data, rest, hread, hrest, rfl⟩ := List.forall₂_cons_left_iff.mp h
          obtain ⟨hfound, hreadable⟩ := ih hrest
          refine ⟨?_, List.forall_mem_cons.mpr ⟨fun row' hrow' => ?_, hreadable⟩⟩
          · have hdata : s.rowData key = some data := by
              rw [rowData, hrow, Option.bind_some, hread]
              rfl
            rw [List.filterMap_cons_some hdata, hfound]
          · rw [hrow] at hrow'
            exact ⟨data, Option.some.inj hrow' ▸ hread⟩

/-- A fetch of several keys that succeeds hands out the cached ones, and publishes the rows
of the others and which of them have none. -/
theorem getMulti_eq {ids : List Nat} (h : (s.getMulti keys).1 = .ok ids) {unknown : List Key}
    (hunknown : (s.source.repo.getMulti keys).2 = unknown) :
    (∀ key ∈ unknown, s.Readable key) ∧ ∃ t, Alike s t ∧
      ids = (s.source.repo.getMulti keys).1 ++ (t.publishRows (unknown.filterMap s.rowData)).1 ∧
      (s.getMulti keys).2 = (t.publishRows (unknown.filterMap s.rowData)).2.publishMissing
        (unknown.filter (· ∉ (unknown.filterMap s.rowData).map s.type.keyOf)) := by
  subst hunknown
  by_cases hknown : (s.source.repo.getMulti keys).2 = []
  · rw [getMulti_of_known hknown] at h ⊢
    rw [hknown]
    refine ⟨List.forall_mem_nil _, s, .refl s, ?_, rfl⟩
    rw [← Except.ok.inj h]
    exact (List.append_nil _).symm
  · rcases Storage.read_all_cases s.storage s.source.table
      (.fetchMulti ((s.source.repo.getMulti keys).2.map (·.text)))
      (·.select ((s.source.repo.getMulti keys).2.map (·.text))) s.type with
      ⟨e, hcall⟩ | ⟨rows, hcall, hpairs⟩
    · rw [getMulti_of_error hknown hcall] at h
      cases h
    · obtain ⟨hrows, hreadable⟩ := filterMap_rowData hpairs
      rw [getMulti_of_ok hknown hcall] at h ⊢
      rw [← hrows]
      exact ⟨hreadable, s.fetchedMulti _, ⟨rfl, rfl, fun _ => rfl, rfl⟩,
        (Except.ok.inj h).symm, rfl⟩

/-- One that fails caches nothing. -/
theorem cached_of_getMulti_error {e : Error} (h : (s.getMulti keys).1 = .error e) :
    (s.getMulti keys).2.source = s.source ∧ (s.getMulti keys).2.instances = s.instances := by
  by_cases hknown : (s.source.repo.getMulti keys).2 = []
  · rw [getMulti_of_known hknown] at h
    cases h
  · cases hfetch : (s.storage.fetchMulti s.source.table
        ((s.source.repo.getMulti keys).2.map (·.text))).1.bind
          (fun cursor => (cursor.allAs s.type.read).1) with
    | error e' =>
        rw [getMulti_of_error hknown hfetch]
        exact ⟨rfl, rfl⟩
    | ok rows =>
        rw [getMulti_of_ok hknown hfetch] at h
        cases h

/-- A joint fetch of several keys hands out what their publication one after the other hands
out, and leaves the same cached, if every row that it finds has the key that it was asked
for. -/
theorem getMulti_publishEach {ids : List Nat} (h : (s.getMulti keys).1 = .ok ids)
    (hown : ∀ key ∈ keys, s.FindsOwn key) :
    ids.Perm (publishEach s.rowData s keys).1.reduceOption ∧
      Alike (publishEach s.rowData s keys).2 (s.getMulti keys).2 := by
  obtain ⟨unknown, hunknown⟩ : ∃ unknown, (s.source.repo.getMulti keys).2 = unknown := ⟨_, rfl⟩
  obtain ⟨-, t, halike, hids, hlast⟩ := getMulti_eq h hunknown
  obtain ⟨hperm, hall⟩ := publishEach_getMulti s.rowData s keys
  rw [hunknown] at hperm hall
  obtain ⟨hsame, hnext⟩ := halike.publishEach s.rowData unknown
  have hmem : ∀ key ∈ unknown, key ∈ keys ∧ s.source.repo.get key = none := by
    intro key hkey
    rw [← hunknown] at hkey
    obtain ⟨hkey, hnone⟩ := List.mem_filter.mp hkey
    exact ⟨hkey, Option.isNone_iff_eq_none.mp hnone⟩
  have htype : t.type = s.type := congrArg (·.model.record) halike.info
  have hkeys : ∀ key ∈ unknown, ∀ data, s.rowData key = some data → t.type.keyOf data = key := by
    intro key hkey data hdata
    rw [htype]
    exact (hown key (hmem key hkey).1).keyOf_eq hdata
  obtain ⟨hperm', hlast'⟩ := publishEach_of_unknown
    (fun key hkey => (halike.slots key).trans (hmem key hkey).2) hkeys
  rw [hsame] at hperm'
  rw [htype] at hlast'
  rw [hids, hlast]
  exact ⟨(hperm.trans (hperm'.append_left _)).symm, hall.trans (hnext.trans hlast')⟩

/-! ## Load callbacks -/

/-- What fetches do to instances and slots: they add instances, each with one callback for its
loading and in a slot that was free, no other instance comes to be live, and what was cached
stays. -/
structure LoadsOnce (s s' : Scope) : Prop where
  info : s'.source.info = s.source.info
  added : ∃ new, s'.instances = s.instances ++ new ∧ ∀ i ∈ new, i.events = [s.birth]
  cached : ∀ id, s.instances.length ≤ id → id < s'.instances.length →
    ∃ key, s.source.repo.get key = none ∧ s'.source.repo.get key = some (.live id)
  live : ∀ key id, s'.source.repo.get key = some (.live id) →
    s.source.repo.get key = some (.live id) ∨
      s.source.repo.get key = none ∧ s.instances.length ≤ id ∧ id < s'.instances.length
  stays : ∀ key slot, s.source.repo.get key = some slot → s'.source.repo.get key = some slot

/-- A step that leaves the instances alone and fills no slot with one. -/
theorem loadsOnce_of_instances (hinfo : s'.source.info = s.source.info)
    (hinstances : s'.instances = s.instances)
    (hlive : ∀ key id, s'.source.repo.get key = some (.live id) →
      s.source.repo.get key = some (.live id))
    (hstays : ∀ key slot, s.source.repo.get key = some slot →
      s'.source.repo.get key = some slot) : LoadsOnce s s' := by
  refine ⟨hinfo, ⟨[], by rw [hinstances, List.append_nil], List.forall_mem_nil _⟩, ?_,
    fun key id h => .inl (hlive key id h), hstays⟩
  intro id hge hlt
  rw [hinstances] at hlt
  omega

theorem Alike.loadsOnce (h : Alike s s') : LoadsOnce s s' :=
  loadsOnce_of_instances h.info h.instances (fun key _ hlive => h.slots key ▸ hlive)
    fun key _ hget => (h.slots key).trans hget

theorem LoadsOnce.length_le (h : LoadsOnce s s') : s.instances.length ≤ s'.instances.length := by
  obtain ⟨new, hnew, -⟩ := h.added
  rw [hnew, List.length_append]
  exact Nat.le_add_right _ _

theorem LoadsOnce.free (h : LoadsOnce s s') (hfree : s'.source.repo.get key = none) :
    s.source.repo.get key = none := by
  by_contra hcached
  obtain ⟨slot, hget⟩ := Option.ne_none_iff_exists'.mp hcached
  rw [h.stays key slot hget] at hfree
  cases hfree

theorem LoadsOnce.trans {s'' : Scope} (h : LoadsOnce s s') (h' : LoadsOnce s' s'') :
    LoadsOnce s s'' := by
  have hle := h.length_le
  have hle' := h'.length_le
  refine ⟨h'.info.trans h.info, ?_, ?_, ?_, fun key slot hget => ?_⟩
  · obtain ⟨new, hnew, hevents⟩ := h.added
    obtain ⟨new', hnew', hevents'⟩ := h'.added
    have hbirth : s'.birth = s.birth := by rw [birth, h.info, birth]
    refine ⟨new ++ new', by rw [hnew', hnew, List.append_assoc], fun i hi => ?_⟩
    rcases List.mem_append.mp hi with hi | hi
    · exact hevents i hi
    · rw [hevents' i hi, hbirth]
  · intro id hge hlt
    by_cases hid : id < s'.instances.length
    · obtain ⟨key, hfree, hlive⟩ := h.cached id hge hid
      exact ⟨key, hfree, h'.stays key _ hlive⟩
    · obtain ⟨key, hfree, hlive⟩ := h'.cached id (Nat.le_of_not_lt hid) hlt
      exact ⟨key, h.free hfree, hlive⟩
  · intro key id hlive
    rcases h'.live key id hlive with hmid | ⟨hfree, hge, hlt⟩
    · rcases h.live key id hmid with hold | ⟨hfree, hge, hlt⟩
      · exact .inl hold
      · exact .inr ⟨hfree, hge, by omega⟩
    · exact .inr ⟨h.free hfree, by omega, hlt⟩
  · exact h'.stays key slot (h.stays key slot hget)

theorem loadsOnce_publish (s : Scope) (key : Key) (data : Option Json) :
    LoadsOnce s (s.publish key data).2 := by
  have hstays : ∀ k slot, s.source.repo.get k = some slot →
      (s.publish key data).2.source.repo.get k = some slot :=
    fun k slot hget => get_publish_of_cached s key data hget
  have hinfo := (publish_frame s key data).1
  obtain ⟨-, hinstances, -, hslots⟩ := publish_settles s key data
  cases hget : s.source.repo.get key with
  | some slot =>
      rw [publish_of_cached hget]
      exact (Alike.refl s).loadsOnce
  | none =>
      cases data with
      | none =>
          rw [Quieted.loaded_eq (.inr rfl), List.append_nil] at hinstances
          refine loadsOnce_of_instances hinfo hinstances (fun k id hlive => ?_) hstays
          rw [hslots, settled_of_absent hget] at hlive
          split at hlive
          · split at hlive <;> cases hlive
          · exact hlive
      | some data =>
          have hlive : (s.publish key (some data)).2.source.repo.get key =
              some (.live s.instances.length) := by
            rw [hslots, if_pos rfl, settled_of_found hget]
          simp only [loaded, hget] at hinstances
          have hlength : (s.publish key (some data)).2.instances.length =
              s.instances.length + 1 := by
            rw [hinstances]
            exact List.length_append
          refine ⟨hinfo, ⟨_, hinstances, fun i hi => ?_⟩, ?_, ?_, hstays⟩
          · rw [List.mem_singleton.mp hi]
          · intro id hge hlt
            obtain rfl : s.instances.length = id := by omega
            exact ⟨key, hget, hlive⟩
          · intro k id hslot
            rw [hslots, settled_of_found hget] at hslot
            split at hslot
            next hk =>
              obtain rfl : s.instances.length = id := by simpa using hslot
              exact .inr ⟨hk ▸ hget, Nat.le_refl _, by omega⟩
            · exact .inl hslot

theorem loadsOnce_publishRows (s : Scope) (rows : List Json) :
    LoadsOnce s (s.publishRows rows).2 := by
  induction rows generalizing s with
  | nil => exact (Alike.refl s).loadsOnce
  | cons data rows ih => exact (loadsOnce_publish s _ _).trans (ih _)

theorem loadsOnce_publishMissing (s : Scope) (keys : List Key) :
    LoadsOnce s (s.publishMissing keys) := by
  induction keys generalizing s with
  | nil => exact (Alike.refl s).loadsOnce
  | cons key keys ih => exact (loadsOnce_publish s key none).trans (ih _)

/-- Each instance that a joint fetch adds is loaded once. -/
theorem loadsOnce_getMulti (s : Scope) (keys : List Key) : LoadsOnce s (s.getMulti keys).2 := by
  have hfetched : ∀ keys, LoadsOnce s (s.fetchedMulti keys) := fun keys =>
    Alike.loadsOnce ⟨rfl, rfl, fun _ => rfl, rfl⟩
  simp only [getMulti]
  split
  · exact (Alike.refl s).loadsOnce
  · split
    · exact hfetched _
    · exact ((hfetched _).trans (loadsOnce_publishRows _ _)).trans (loadsOnce_publishMissing _ _)

end Fetches

end Scope

/-! ## The cache -/

namespace Cache

/-- Fetches of some keys, one after the other. -/
def getEach (c : Cache) (model : Model) : List Key → List (Except Failure (Option Nat)) × Cache
  | [] => ([], c)
  | key :: keys =>
    let (found, c) := c.get model key
    let (more, c) := c.getEach model keys
    (found :: more, c)

/-- What is cached in the source of a namespace. -/
def slots (c : Cache) (ns : String) : Option (Key → Option (Slot Nat)) :=
  (c.sources.get? ns).map (·.repo.get)

section Fetches

variable {c : Cache} {model : Model} {source : Source} {s s' : Scope} {keys : List Key}

theorem source_adopt (hinfo : s.source.info.model = model) (ns : String) :
    (c.adopt ns s).source model ns = .ok s.source := by
  simp only [Cache.source, get?_adopt_self, hinfo, if_true]

theorem adopt_adopt (c : Cache) (ns : String) (s s' : Scope) :
    (c.adopt ns s).adopt ns s' = c.adopt ns s' := by
  have hsources : (c.sources.insert ns s.source).insert ns s'.source =
      c.sources.insert ns s'.source := by
    refine SortedMap.ext_get? fun k => ?_
    simp only [SortedMap.get?_insert]
    split <;> rfl
  simp only [adopt, hsources]

theorem slots_adopt (h : Scope.Alike s s') (c : Cache) (ns ns' : String) :
    (c.adopt ns s').slots ns' = (c.adopt ns s).slots ns' := by
  by_cases hns : ns = ns'
  · subst hns
    rw [slots, slots, get?_adopt_self, get?_adopt_self]
    exact congrArg some (funext h.slots)
  · rw [slots, slots, get?_adopt_of_ne c s' hns, get?_adopt_of_ne c s hns]

theorem getEach_eq (hsource : c.source model model.record.ns = .ok source) (keys : List Key) :
    c.getEach model keys = (((c.scope source).getEach keys).1.map (·.mapError .error),
      c.adopt model.record.ns ((c.scope source).getEach keys).2) := by
  induction keys generalizing c source with
  | nil =>
      rw [getEach, Scope.getEach, adopt_scope (source_eq_ok hsource).1]
      rfl
  | cons key keys ih =>
      have hinfo : ((c.scope source).get key).2.source.info.model = model := by
        rw [(Scope.loads_get (c.scope source) key).info]
        exact (source_eq_ok hsource).2
      have hnext := ih (source_adopt (c := c) hinfo model.record.ns)
      have hscope : (c.adopt model.record.ns ((c.scope source).get key).2).scope
          ((c.scope source).get key).2.source = ((c.scope source).get key).2 := rfl
      rw [hscope, adopt_adopt] at hnext
      simp only [getEach, get, within, hsource, Scope.getEach, hnext, List.map_cons]

/-- A fetch of several keys that fails leaves what is cached as it was.  One that succeeds
loads each instance that it adds once, and if the table would not refuse to be asked for each
key alone either, it hands out the instances that fetches of the keys one after the other hand
out, as often as they do, and leaves the same instances and the same slots.  The row of each
key has to be a record with that key, as far as it can be read. -/
theorem getMulti_agrees (hsource : c.source model model.record.ns = .ok source)
    (hown : ∀ key ∈ keys, (c.scope source).FindsOwn key) :
    (∀ e, (c.getMulti model keys).1 = .error e →
      (c.getMulti model keys).2.sources = c.sources ∧
        (c.getMulti model keys).2.instances = c.instances) ∧
    ∀ ids, (c.getMulti model keys).1 = .ok ids →
      (∃ source', (c.getMulti model keys).2.source model model.record.ns = .ok source' ∧
        Scope.LoadsOnce (c.scope source) ((c.getMulti model keys).2.scope source')) ∧
      ((∀ key ∈ keys, source.repo.get key = none →
        (c.storage.askTable source.table (.fetch true key.text)).1 = .ok ()) →
          ∃ found : List (Option Nat),
            (c.getEach model keys).1 = found.map .ok ∧ ids.Perm found.reduceOption ∧
            (c.getEach model keys).2.instances = (c.getMulti model keys).2.instances ∧
            ∀ ns, (c.getEach model keys).2.slots ns = (c.getMulti model keys).2.slots ns) := by
  obtain ⟨hget, hmodel⟩ := source_eq_ok hsource
  have hjoint : c.getMulti model keys = (((c.scope source).getMulti keys).1.mapError .error,
      c.adopt model.record.ns ((c.scope source).getMulti keys).2) := by
    simp only [getMulti, within, hsource]
  have hloads := Scope.loadsOnce_getMulti (c.scope source) keys
  rw [hjoint, getEach_eq hsource]
  cases hresult : ((c.scope source).getMulti keys).1 with
  | error e =>
      obtain ⟨hsame, hinstances⟩ := Scope.cached_of_getMulti_error hresult
      refine ⟨fun _ _ => ⟨?_, hinstances⟩, fun ids hids => by cases hids⟩
      have hadopt : (c.adopt model.record.ns ((c.scope source).getMulti keys).2).sources =
          (c.adopt model.record.ns (c.scope source)).sources := by
        simp only [adopt, hsame]
      rw [hadopt, adopt_scope hget]
  | ok found =>
      refine ⟨fun e he => (by cases he), fun ids hids => ?_⟩
      obtain rfl : found = ids := Except.ok.inj hids
      have hinfo : ((c.scope source).getMulti keys).2.source.info.model = model := by
        rw [hloads.info]
        exact hmodel
      refine ⟨⟨_, source_adopt hinfo _, hloads⟩, fun hasked => ?_⟩
      obtain ⟨hperm, halike⟩ := Scope.getMulti_publishEach hresult hown
      have htells : ∀ key ∈ keys, (c.scope source).source.repo.get key = none →
          (c.scope source).Tells key ((c.scope source).rowData key) := by
        intro key hkey hfree
        have hunknown : key ∈ ((c.scope source).source.repo.getMulti keys).2 :=
          List.mem_filter.mpr ⟨hkey, Option.isNone_iff_eq_none.mpr hfree⟩
        exact Scope.tells_rowData (hasked key hkey hfree)
          ((Scope.getMulti_eq hresult rfl).1 key hunknown)
      obtain ⟨heach, halike'⟩ := Scope.getEach_eq htells
      have hsame := halike.symm.trans halike'
      refine ⟨_, ?_, hperm, hsame.instances, slots_adopt hsame c model.record.ns⟩
      rw [heach, List.map_map]
      rfl

end Fetches

end Cache

namespace Sample

/-- Two heroes are on the shelf, and the first one is cached. -/
def heroesCache : Cache :=
  ((soleCache hero (heroRows.insert "3" (heroDocument 3 5))).get hero (heroNumber 1)).2

/-- The third hero is asked for twice, and the second one is not there. -/
def heroesAsked : List Key := [heroNumber 3, heroNumber 1, heroNumber 2, heroNumber 3]

/-- The heroes are the same whether they are fetched together or one by one. -/
theorem getMulti_heroesAsked :
    (heroesCache.getMulti hero heroesAsked).1.toOption = some [0, 1, 1] ∧
      (heroesCache.getEach hero heroesAsked).1.map Except.toOption =
        [some (some 1), some (some 0), some none, some (some 1)] ∧
      ∃ source, heroesCache.source hero hero.record.ns = .ok source ∧
        (∀ key ∈ heroesAsked, (heroesCache.scope source).FindsOwn key) ∧
        (∀ key ∈ heroesAsked, source.repo.get key = none →
          (heroesCache.storage.askTable source.table (.fetch true key.text)).1 = .ok ()) ∧
        ∀ ns, (heroesCache.getEach hero heroesAsked).2.slots ns =
          (heroesCache.getMulti hero heroesAsked).2.slots ns := by
  have hids : (heroesCache.getMulti hero heroesAsked).1.toOption = some [0, 1, 1] := by
    decide +kernel
  have htable : (heroesCache.source hero hero.record.ns).toOption.map (·.table) =
      some (.memory "hero") := by
    decide +kernel
  have hkeys : ∀ key ∈ heroesAsked,
      (((heroesCache.storage.rows (.memory "hero")).get? key.text).bind fun row =>
        (hero.record.read (.ofDocument row)).toOption).all fun data =>
          hero.record.keyOf data = key := by
    decide +kernel
  refine ⟨hids, by decide +kernel, ?_⟩
  cases hsource : heroesCache.source hero hero.record.ns with
  | error e =>
      rw [hsource] at htable
      cases htable
  | ok source =>
      rw [hsource] at htable
      have hmemory : source.table = .memory "hero" := Option.some.inj htable
      have htype : (heroesCache.scope source).type = hero.record :=
        congrArg Model.record (Cache.source_eq_ok hsource).2
      have hown : ∀ key ∈ heroesAsked, (heroesCache.scope source).FindsOwn key := by
        intro key hkey row data hrow hread
        rw [Cache.scope, hmemory] at hrow
        rw [htype] at hread ⊢
        have hdata := hkeys key hkey
        rw [hrow, Option.bind_some, hread] at hdata
        exact of_decide_eq_true hdata
      have hasked : ∀ key ∈ heroesAsked, source.repo.get key = none →
          (heroesCache.storage.askTable source.table (.fetch true key.text)).1 = .ok () := by
        intro key _ _
        rw [hmemory]
        rfl
      cases hresult : (heroesCache.getMulti hero heroesAsked).1 with
      | error e =>
          rw [hresult] at hids
          cases hids
      | ok ids =>
          obtain ⟨-, heach⟩ := (Cache.getMulti_agrees hsource hown).2 ids hresult
          obtain ⟨found, -, -, -, hslots⟩ := heach hasked
          exact ⟨source, rfl, hown, hasked, hslots⟩

end Sample

end WriteBehind
