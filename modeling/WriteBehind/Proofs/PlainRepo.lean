import Mathlib.Data.Finmap
import WriteBehind.Repo
import WriteBehind.Sample

/-!
# A sharded repository is a plain map

A repository looks for a key in one group only.  That is enough because every key stays in
the group that its hash leads to (`Repo.Placed`), so that all groups together hold at most
one slot per key.  `PlainRepo` is the same cache over a single finite map.  Both give the
same answers, call after call, and hold the same slots in the end (`Repo.sharding_unseen`);
a scan by a key that stands for others may look into one group because such keys are
hashed alike.
-/

namespace WriteBehind

/-- A key is hashed like every key that it stands for. -/
class LawfulCacheKey (κ : Type) [CacheKey κ] : Prop where
  hash_eq : ∀ stem key : κ, CacheKey.startsKey stem key = true →
    CacheKey.hash stem = CacheKey.hash key

instance : LawfulCacheKey Key := ⟨fun _ _ h => Key.hash_eq_of_startsKey h⟩

/-! ## Calls and answers -/

/-- What a repository can be asked for. -/
inductive RepoCall (κ υ : Type) where
  | get (key : κ)
  | contains (key : κ)
  | setOnFetch (key : κ) (fetched : Option υ)
  | setOnStore (key : κ) (v : υ)
  | setOnDelete (key : κ) (v : υ)
  | expire (key : κ)
  | getAll (stem : κ)
  | getMulti (keys : List κ)
  | size

/-- What a repository answers. -/
inductive RepoAnswer (κ υ : Type) where
  | slot (slot : Option (Slot υ))
  | flag (yes : Bool)
  /-- The cached instance, and whether it is the one that was fetched: then it is announced
  for the first time. -/
  | fetched (cached : Option υ) (first : Bool)
  | expired (evicted : Option υ)
  /-- Instances in no order. -/
  | scanned (instances : Multiset υ)
  | parted (cached : List υ) (unknown : List κ)
  | count (n : Nat)

section Runs

variable {κ υ : Type} [DecidableEq κ] [DecidableEq υ] [CacheKey κ]

namespace Repo

/-- Answers a call. -/
def serve (r : Repo κ υ) : RepoCall κ υ → RepoAnswer κ υ × Repo κ υ
  | .get key => (.slot (r.get key), r)
  | .contains key => (.flag (r.contains key), r)
  | .setOnFetch key fetched =>
    let ((cached, first), r) := r.setOnFetch key fetched
    (.fetched cached first, r)
  | .setOnStore key v =>
    let (stored, r) := r.setOnStore key v
    (.flag stored, r)
  | .setOnDelete key v =>
    let (removed, r) := r.setOnDelete key v
    (.flag removed, r)
  | .expire key =>
    let (expired, r) := r.expire key
    (.expired expired, r)
  | .getAll stem => (.scanned (r.getAll stem), r)
  | .getMulti keys =>
    let (cached, unknown) := r.getMulti keys
    (.parted cached unknown, r)
  | .size => (.count r.size, r)

/-- Answers calls one by one. -/
def run (r : Repo κ υ) : List (RepoCall κ υ) → List (RepoAnswer κ υ) × Repo κ υ
  | [] => ([], r)
  | call :: calls =>
    let (answer, r) := r.serve call
    let (answers, r) := r.run calls
    (answer :: answers, r)

end Repo

/-- The slots of keys in one finite map. -/
abbrev SlotMap (κ υ : Type) := Finmap fun _ : κ => Slot υ

/-- A cache over a single map. -/
structure PlainRepo (κ υ : Type) where
  slots : SlotMap κ υ := ∅
  volatile : Bool

namespace PlainRepo

/-- The live instance of a key. -/
def live? (p : PlainRepo κ υ) (key : κ) : Option υ :=
  (p.slots.lookup key).bind (·.live?)

/-- The cache with the slot of a key set. -/
def put (p : PlainRepo κ υ) (key : κ) (slot : Slot υ) : PlainRepo κ υ :=
  { p with slots := p.slots.insert key slot }

/-- The cache without a key. -/
def drop (p : PlainRepo κ υ) (key : κ) : PlainRepo κ υ :=
  { p with slots := p.slots.erase key }

/-- The cache after it was found that nothing is stored under a key. -/
def miss (p : PlainRepo κ υ) (key : κ) : PlainRepo κ υ :=
  if p.volatile then p.drop key else p.put key .missing

/-- The live instances under the keys that pass a test. -/
def instances (p : PlainRepo κ υ) (test : κ → Bool) : Multiset υ :=
  (p.slots.entries.filter fun e => test e.1 = true).filterMap (·.2.live?)

/-- Answers a call. -/
def serve (p : PlainRepo κ υ) : RepoCall κ υ → RepoAnswer κ υ × PlainRepo κ υ
  | .get key => (.slot (p.slots.lookup key), p)
  | .contains key => (.flag (p.live? key).isSome, p)
  | .setOnFetch key fetched =>
    if key ∈ p.slots then (.fetched (p.live? key) false, p)
    else
      match fetched with
      | some v => (.fetched (some v) true, p.put key (.live v))
      | none => (.fetched none false, p.miss key)
  | .setOnStore key v =>
    match p.live? key with
    | some cached => (.flag (cached = v), p)
    | none => (.flag true, p.put key (.live v))
  | .setOnDelete key v =>
    if p.live? key = some v then (.flag true, p.miss key) else (.flag false, p)
  | .expire key => (.expired (p.live? key), p.drop key)
  | .getAll stem => (.scanned (p.instances (CacheKey.startsKey stem)), p)
  | .getMulti keys => (.parted (keys.filterMap p.live?) (keys.filter (· ∉ p.slots)), p)
  | .size => (.count (p.instances fun _ => true).card, p)

/-- Answers calls one by one. -/
def run (p : PlainRepo κ υ) : List (RepoCall κ υ) → List (RepoAnswer κ υ) × PlainRepo κ υ
  | [] => ([], p)
  | call :: calls =>
    let (answer, p) := p.serve call
    let (answers, p) := p.run calls
    (answer :: answers, p)

end PlainRepo

end Runs

/-! ## Groups -/

namespace Group

variable {κ υ : Type} [DecidableEq κ]

theorem find?_eq_some_iff {key : κ} {slot : Slot υ} {g : Group κ υ}
    (hdistinct : (g.map (·.1)).Nodup) : find? key g = some slot ↔ (key, slot) ∈ g := by
  induction g with
  | nil => simp [find?]
  | cons e rest ih =>
      obtain ⟨k, s⟩ := e
      obtain ⟨hfresh, hrest⟩ := List.nodup_cons.mp hdistinct
      by_cases hk : k = key
      · subst hk
        have hnot : (k, slot) ∉ rest := fun hmem => hfresh (List.mem_map.mpr ⟨_, hmem, rfl⟩)
        simp [find?, hnot, eq_comm]
      · simp [find?, hk, ih hrest, Ne.symm hk]

theorem eq_or_mem_of_mem_set {key : κ} {slot : Slot υ} {g : Group κ υ} {e : κ × Slot υ}
    (h : e ∈ set key slot g) : e.1 = key ∨ e ∈ g := by
  induction g with
  | nil =>
      rw [set, List.mem_singleton] at h
      exact .inl (congrArg Prod.fst h)
  | cons a rest ih =>
      rw [set] at h
      split at h
      · rcases List.mem_cons.mp h with rfl | h
        · exact .inl rfl
        · exact .inr (List.mem_cons_of_mem a h)
      · rcases List.mem_cons.mp h with rfl | h
        · exact .inr List.mem_cons_self
        · exact (ih h).imp_right (List.mem_cons_of_mem a)

theorem nodup_set {key : κ} (slot : Slot υ) {g : Group κ υ} (h : (g.map (·.1)).Nodup) :
    ((set key slot g).map (·.1)).Nodup := by
  induction g with
  | nil => simp [set]
  | cons a rest ih =>
      obtain ⟨hfresh, hrest⟩ := List.nodup_cons.mp h
      rw [set]
      split
      next hkey =>
        rw [List.map_cons, ← hkey]
        exact h
      next hkey =>
        rw [List.map_cons]
        refine List.nodup_cons.mpr ⟨?_, ih hrest⟩
        intro hmem
        obtain ⟨e, he, hsame⟩ := List.mem_map.mp hmem
        rcases eq_or_mem_of_mem_set he with hnew | hold
        · exact hkey (hsame.symm.trans hnew)
        · exact hfresh (List.mem_map.mpr ⟨e, hold, hsame⟩)

theorem nodup_erase (key : κ) {g : Group κ υ} (h : (g.map (·.1)).Nodup) :
    ((g.erase key).map (·.1)).Nodup :=
  h.sublist (List.filter_sublist.map _)

end Group

/-! ## Every key is in its group -/

/-- Where no list but one has what passes a test, the others need not be searched. -/
theorem filter_flatten_eq {α : Type} {p : α → Bool} {lists : List (List α)} {n : Nat}
    (h : ∀ (i : Nat) (l : List α), lists[i]? = some l → i ≠ n → l.filter p = []) :
    lists.flatten.filter p = ((lists[n]?).getD []).filter p := by
  induction lists generalizing n with
  | nil => rfl
  | cons l rest ih =>
      rw [List.flatten_cons, List.filter_append]
      cases n with
      | zero =>
          have hrest : rest.flatten.filter p = [] := by
            rw [ih (n := rest.length), List.getElem?_eq_none le_rfl]
            · rfl
            · exact fun i l' hl' _ => h (i + 1) l' hl' (Nat.succ_ne_zero i)
          rw [hrest, List.append_nil]
          rfl
      | succ n =>
          rw [h 0 l rfl (Nat.succ_ne_zero n).symm, List.nil_append]
          exact ih fun i l' hl' hi => h (i + 1) l' hl' fun heq => hi (Nat.succ.inj heq)

namespace Repo

section Placement

variable {κ υ : Type} [CacheKey κ] {r : Repo κ υ}

/-- Every key stands in the group that its hash leads to, and there once. -/
structure Placed (r : Repo κ υ) : Prop where
  placed : ∀ (n : Nat) (g : Group κ υ), r.groups[n]? = some g → ∀ e ∈ g, r.groupIndex e.1 = n
  distinct : ∀ g ∈ r.groups, (g.map (·.1)).Nodup

/-- The slots of all groups. -/
def entries (r : Repo κ υ) : List (Σ _ : κ, Slot υ) :=
  r.groups.flatten.map fun e => ⟨e.1, e.2⟩

/-- The low bits of a hash are its remainder. -/
theorem groupIndex_eq_mod (r : Repo κ υ) (key : κ) :
    r.groupIndex key = (CacheKey.hash key).toNat % r.groupCount := by
  obtain ⟨k, hk⟩ := r.sized
  rw [groupIndex, groupCount, hk, Nat.and_two_pow_sub_one_eq_mod]

theorem groupOf_eq (r : Repo κ υ) (key : κ) :
    groupOf (CacheKey.hash key) r.groupCount = .ok (r.groupIndex key) := by
  obtain ⟨hpos, hbits⟩ := Nat.ne_zero_and_sub_one_eq_zero_iff_isPowerOfTwo.mpr r.sized
  have hsized : (r.groupCount != 0 && r.groupCount &&& (r.groupCount - 1) == 0) = true := by
    simp [groupCount, hpos, hbits]
  rw [groupOf, if_pos hsized]
  rfl

theorem groupIndex_modifyGroup (r : Repo κ υ) (key : κ) (f : Group κ υ → Group κ υ) (k : κ) :
    (r.modifyGroup key f).groupIndex k = r.groupIndex k := by
  rw [groupIndex, groupIndex, modifyGroup, List.length_modify]

theorem getElem?_groupIndex (r : Repo κ υ) (key : κ) :
    r.groups[r.groupIndex key]? = some (r.group key) := by
  rw [group, List.getElem?_eq_getElem (r.groupIndex_lt key), Option.getD_some]

/-- A change of one group that brings in no other key than its own. -/
theorem Placed.modifyGroup (h : r.Placed) {key : κ} {f : Group κ υ → Group κ υ}
    (hkeys : ∀ g, ∀ e ∈ f g, e.1 = key ∨ e ∈ g)
    (hdistinct : ∀ g, (g.map (·.1)).Nodup → ((f g).map (·.1)).Nodup) :
    (r.modifyGroup key f).Placed := by
  have hgroups : ∀ (n : Nat) (g : Group κ υ), (r.modifyGroup key f).groups[n]? = some g →
      r.groups[n]? = some g ∨
        r.groupIndex key = n ∧ ∃ g', r.groups[n]? = some g' ∧ f g' = g := by
    intro n g hg
    rw [Repo.modifyGroup, List.getElem?_modify, Option.map_eq_map, Option.map_eq_some_iff] at hg
    obtain ⟨g', hg', hsame⟩ := hg
    split at hsame
    next hn => exact .inr ⟨hn, g', hg', hsame⟩
    · exact .inl (hsame ▸ hg')
  constructor
  · intro n g hg e he
    rw [groupIndex_modifyGroup]
    rcases hgroups n g hg with hold | ⟨hn, g', hg', rfl⟩
    · exact h.placed n g hold e he
    · rcases hkeys g' e he with hnew | hmem
      · rw [hnew, hn]
      · exact h.placed n g' hg' e hmem
  · intro g hmem
    obtain ⟨n, hg⟩ := List.getElem?_of_mem hmem
    rcases hgroups n g hg with hold | ⟨-, g', hg', rfl⟩
    · exact h.distinct g (List.mem_of_getElem? hold)
    · exact hdistinct g' (h.distinct g' (List.mem_of_getElem? hg'))

theorem Placed.nodupKeys_entries (h : r.Placed) : r.entries.NodupKeys := by
  rw [List.nodupKeys_iff_pairwise, entries, List.pairwise_map, List.pairwise_flatten]
  constructor
  · intro g hg
    exact List.pairwise_map.mp (h.distinct g hg)
  · rw [List.pairwise_iff_getElem]
    intro i j hi hj hlt a ha b hb hsame
    have hplaceA := h.placed i _ (List.getElem?_eq_getElem hi) a ha
    have hplaceB := h.placed j _ (List.getElem?_eq_getElem hj) b hb
    rw [show a.1 = b.1 from hsame] at hplaceA
    omega

/-- A test that only keys of one group pass sees that group alone. -/
theorem Placed.filter_flatten (h : r.Placed) {key : κ} {test : κ → Bool}
    (htest : ∀ k, test k = true → r.groupIndex k = r.groupIndex key) :
    (r.groups.flatten.filter fun e => test e.1) = (r.group key).filter fun e => test e.1 := by
  apply filter_flatten_eq
  intro n g hg hn
  rw [List.filter_eq_nil_iff]
  intro e he hpasses
  exact hn ((h.placed n g hg e he).symm.trans (htest e.1 hpasses))

variable [DecidableEq κ]

theorem Placed.set (h : r.Placed) (key : κ) (slot : Slot υ) :
    (r.modifyGroup key (·.set key slot)).Placed :=
  h.modifyGroup (fun _ _ he => Group.eq_or_mem_of_mem_set he) fun _ => Group.nodup_set slot

theorem Placed.erase (h : r.Placed) (key : κ) : (r.modifyGroup key (·.erase key)).Placed :=
  h.modifyGroup (fun _ _ he => .inr (List.mem_of_mem_filter he)) fun _ => Group.nodup_erase key

theorem Placed.get_eq_some_iff (h : r.Placed) {key : κ} {slot : Slot υ} :
    r.get key = some slot ↔ (key, slot) ∈ r.group key :=
  Group.find?_eq_some_iff (h.distinct _ (List.mem_of_getElem? (r.getElem?_groupIndex key)))

/-- What is cached for a key stands in the group of its hash and nowhere else. -/
theorem Placed.mem_group_iff (h : r.Placed) {i : Nat} {g : Group κ υ}
    (hg : r.groups[i]? = some g) {key : κ} {slot : Slot υ} :
    (key, slot) ∈ g ↔
      r.get key = some slot ∧ groupOf (CacheKey.hash key) r.groupCount = .ok i := by
  rw [groupOf_eq, Except.ok.injEq, h.get_eq_some_iff]
  constructor
  · intro he
    have hi := h.placed i g hg _ he
    have hsame := (r.getElem?_groupIndex key).symm.trans (hi ▸ hg)
    exact ⟨Option.some.inj hsame ▸ he, hi⟩
  · rintro ⟨he, hi⟩
    have hsame := (r.getElem?_groupIndex key).symm.trans (hi ▸ hg)
    exact Option.some.inj hsame ▸ he

theorem Placed.mem_entries_iff (h : r.Placed) {key : κ} {slot : Slot υ} :
    (⟨key, slot⟩ : Σ _ : κ, Slot υ) ∈ r.entries ↔ r.get key = some slot := by
  rw [entries, List.mem_map]
  constructor
  · rintro ⟨e, he, hsame⟩
    obtain ⟨rfl, rfl⟩ : e.1 = key ∧ e.2 = slot := by simpa using hsame
    obtain ⟨g, hmem, he⟩ := List.mem_flatten.mp he
    obtain ⟨i, hg⟩ := List.getElem?_of_mem hmem
    exact ((h.mem_group_iff hg).mp he).1
  · intro hget
    have hmem := List.mem_of_getElem? (r.getElem?_groupIndex key)
    exact ⟨_, List.mem_flatten.mpr ⟨_, hmem, h.get_eq_some_iff.mp hget⟩, rfl⟩

/-- A scan misses no live instance. -/
theorem Placed.mem_getAll [LawfulCacheKey κ] (h : r.Placed) {stem key : κ} {v : υ}
    (hstem : CacheKey.startsKey stem key = true) (hlive : r.get key = some (.live v)) :
    v ∈ r.getAll stem := by
  have hgroup : r.group stem = r.group key := by
    rw [group, group, groupIndex, groupIndex, LawfulCacheKey.hash_eq stem key hstem]
  rw [getAll, hgroup]
  refine List.mem_filterMap.mpr ⟨(key, .live v), ?_, rfl⟩
  exact List.mem_filter.mpr ⟨h.get_eq_some_iff.mp hlive, hstem⟩

end Placement

/-! ## One map for all groups -/

section Plain

variable {κ υ : Type} [DecidableEq κ] [CacheKey κ] {r : Repo κ υ} {p : PlainRepo κ υ}

/-- The groups of a repository hold the slots of a plain one. -/
structure Holds (r : Repo κ υ) (p : PlainRepo κ υ) : Prop where
  volatile : p.volatile = r.volatile
  placed : r.Placed
  lookup : ∀ key, p.slots.lookup key = r.get key

/-- A new repository holds nothing, in as many groups as there are in the next power of two. -/
theorem exists_create {groups : Nat} (hgroups : 0 < groups) (volatile : Bool) :
    ∃ r : Repo κ υ, create groups volatile = .ok r ∧ r.groupCount = groups.nextPowerOfTwo ∧
      r.Holds { volatile } := by
  obtain ⟨r, hcreate⟩ : ∃ r : Repo κ υ, create groups volatile = .ok r := by
    rw [create, if_neg hgroups.ne']
    exact ⟨_, rfl⟩
  obtain ⟨hvolatile, hgroupsOf⟩ :
      r.volatile = volatile ∧ r.groups = List.replicate groups.nextPowerOfTwo [] := by
    rw [create, if_neg hgroups.ne'] at hcreate
    rw [← Except.ok.inj hcreate]
    exact ⟨rfl, rfl⟩
  refine ⟨r, hcreate, by rw [groupCount, hgroupsOf, List.length_replicate], ?_⟩
  constructor
  · exact hvolatile.symm
  · constructor
    · intro n g hg e he
      rw [hgroupsOf] at hg
      rw [List.eq_of_mem_replicate (List.mem_of_getElem? hg)] at he
      exact absurd he List.not_mem_nil
    · intro g hg
      rw [hgroupsOf] at hg
      rw [List.eq_of_mem_replicate hg]
      exact List.nodup_nil
  · intro key
    rw [(get_of_create hcreate key).2]
    exact Finmap.lookup_empty key

theorem Holds.entries_eq (h : r.Holds p) : p.slots.entries = (r.entries : Multiset _) := by
  rw [Multiset.Nodup.ext p.slots.nodup_entries
    (Multiset.coe_nodup.mpr h.placed.nodupKeys_entries.nodup)]
  rintro ⟨key, slot⟩
  rw [← Finmap.lookup_eq_some_iff, h.lookup, Multiset.mem_coe, h.placed.mem_entries_iff]

theorem Holds.live?_eq (h : r.Holds p) (key : κ) : p.live? key = (r.get key).bind (·.live?) := by
  rw [PlainRepo.live?, h.lookup]

theorem Holds.mem_slots_iff (h : r.Holds p) (key : κ) : key ∈ p.slots ↔ r.get key ≠ none := by
  rw [← Finmap.lookup_isSome, h.lookup, Option.isSome_iff_ne_none]

theorem Holds.put (h : r.Holds p) (key : κ) (slot : Slot υ) :
    (r.modifyGroup key (·.set key slot)).Holds (p.put key slot) := by
  refine ⟨h.volatile, h.placed.set key slot, ?_⟩
  intro k
  rw [get_set, PlainRepo.put]
  by_cases hk : key = k
  · subst hk
    rw [if_pos rfl, Finmap.lookup_insert]
  · rw [if_neg hk, Finmap.lookup_insert_of_ne _ (Ne.symm hk), h.lookup]

theorem Holds.drop (h : r.Holds p) (key : κ) :
    (r.modifyGroup key (·.erase key)).Holds (p.drop key) := by
  refine ⟨h.volatile, h.placed.erase key, ?_⟩
  intro k
  rw [get_erase, PlainRepo.drop]
  by_cases hk : key = k
  · subst hk
    rw [if_pos rfl, Finmap.lookup_erase]
  · rw [if_neg hk, Finmap.lookup_erase_ne (Ne.symm hk), h.lookup]

/-- There is nothing to drop of a key of which nothing is cached. -/
theorem Holds.drop_of_none (h : r.Holds p) {key : κ} (hnone : r.get key = none) :
    r.Holds (p.drop key) := by
  refine ⟨h.volatile, h.placed, ?_⟩
  intro k
  rw [PlainRepo.drop]
  by_cases hk : key = k
  · subst hk
    rw [Finmap.lookup_erase, hnone]
  · rw [Finmap.lookup_erase_ne (Ne.symm hk), h.lookup]

/-- A scan sees what is in the one map. -/
theorem Holds.scan (h : r.Holds p) (test : κ → Bool) :
    p.instances test =
      (Group.instances (r.groups.flatten.filter fun e => test e.1) : Multiset υ) := by
  rw [PlainRepo.instances, h.entries_eq, entries, Multiset.filter_coe, Multiset.filterMap_coe,
    List.filter_map, List.filterMap_map]
  simp only [Function.comp_def, Bool.decide_eq_true]
  rfl

theorem Holds.size_eq (h : r.Holds p) : (p.instances fun _ => true).card = r.size := by
  rw [h.scan, List.filter_true, Multiset.coe_card, size, instances, Group.instances,
    List.filterMap_flatten]
  rfl

variable [DecidableEq υ]

/-- What a fetch gave is published alike. -/
theorem Holds.setOnFetch (h : r.Holds p) (key : κ) (fetched : Option υ) :
    (r.serve (.setOnFetch key fetched)).1 = (p.serve (.setOnFetch key fetched)).1 ∧
      (r.serve (.setOnFetch key fetched)).2.Holds (p.serve (.setOnFetch key fetched)).2 := by
  cases hget : r.get key with
  | some slot =>
      have hmem : key ∈ p.slots := (h.mem_slots_iff key).mpr (by simp [hget])
      have hlive : p.live? key = slot.live? := by rw [h.live?_eq, hget, Option.bind_some]
      simp only [Repo.serve, PlainRepo.serve, setOnFetch_of_cached hget, if_pos hmem, hlive]
      exact ⟨trivial, h⟩
  | none =>
      have hmem : key ∉ p.slots := fun hmem => (h.mem_slots_iff key).mp hmem hget
      simp only [Repo.serve, PlainRepo.serve, Repo.setOnFetch, hget, if_neg hmem]
      cases fetched with
      | some v => exact ⟨rfl, h.put key (.live v)⟩
      | none =>
          refine ⟨rfl, ?_⟩
          simp only [PlainRepo.miss, h.volatile]
          split
          · exact h.drop_of_none hget
          · exact h.put key .missing

/-- A stored instance takes a place that no other live instance has. -/
theorem Holds.setOnStore (h : r.Holds p) (key : κ) (v : υ) :
    (r.serve (.setOnStore key v)).1 = (p.serve (.setOnStore key v)).1 ∧
      (r.serve (.setOnStore key v)).2.Holds (p.serve (.setOnStore key v)).2 := by
  simp only [Repo.serve, PlainRepo.serve, Repo.setOnStore, h.live?_eq]
  rcases hget : r.get key with _ | (cached | _)
  · exact ⟨rfl, h.put key (.live v)⟩
  · exact ⟨rfl, h⟩
  · exact ⟨rfl, h.put key (.live v)⟩

/-- A removed instance is forgotten where it is the cached one. -/
theorem Holds.setOnDelete (h : r.Holds p) (key : κ) (v : υ) :
    (r.serve (.setOnDelete key v)).1 = (p.serve (.setOnDelete key v)).1 ∧
      (r.serve (.setOnDelete key v)).2.Holds (p.serve (.setOnDelete key v)).2 := by
  have hlive : p.live? key = some v ↔ r.get key = some (.live v) := by
    rw [h.live?_eq]
    rcases r.get key with _ | (cached | _)
    · simp
    · simp [Slot.live?]
    · simp [Slot.live?]
  simp only [Repo.serve, PlainRepo.serve, Repo.setOnDelete, hlive]
  split
  · refine ⟨rfl, ?_⟩
    simp only [PlainRepo.miss, h.volatile]
    split
    · exact h.drop key
    · exact h.put key .missing
  · exact ⟨rfl, h⟩

/-- A call is answered alike, and the same slots are held after it. -/
theorem Holds.serve [LawfulCacheKey κ] (h : r.Holds p) (call : RepoCall κ υ) :
    (r.serve call).1 = (p.serve call).1 ∧ (r.serve call).2.Holds (p.serve call).2 := by
  cases call with
  | get key => exact ⟨congrArg RepoAnswer.slot (h.lookup key).symm, h⟩
  | contains key =>
      refine ⟨?_, h⟩
      simp only [Repo.serve, PlainRepo.serve, contains, h.live?_eq]
  | setOnFetch key fetched => exact h.setOnFetch key fetched
  | setOnStore key v => exact h.setOnStore key v
  | setOnDelete key v => exact h.setOnDelete key v
  | expire key =>
      refine ⟨?_, h.drop key⟩
      simp only [Repo.serve, PlainRepo.serve, expire, h.live?_eq]
  | getAll stem =>
      refine ⟨?_, h⟩
      have hgroup : (r.groups.flatten.filter fun e => CacheKey.startsKey stem e.1) =
          (r.group stem).filter fun e => CacheKey.startsKey stem e.1 := by
        apply h.placed.filter_flatten
        intro k hk
        rw [groupIndex, groupIndex, LawfulCacheKey.hash_eq stem k hk]
      simp only [Repo.serve, PlainRepo.serve, h.scan, getAll, hgroup]
  | getMulti keys =>
      refine ⟨?_, h⟩
      have hunknown : keys.filter (fun key => decide (key ∉ p.slots)) =
          keys.filter fun key => (r.get key).isNone := by
        apply List.filter_congr
        intro key _
        rw [Bool.eq_iff_iff, decide_eq_true_iff, h.mem_slots_iff, not_not,
          Option.isNone_iff_eq_none]
      simp only [Repo.serve, PlainRepo.serve, getMulti, hunknown, funext h.live?_eq]
  | size => exact ⟨congrArg RepoAnswer.count h.size_eq.symm, h⟩

theorem Holds.run [LawfulCacheKey κ] (h : r.Holds p) (calls : List (RepoCall κ υ)) :
    (r.run calls).1 = (p.run calls).1 ∧ (r.run calls).2.Holds (p.run calls).2 := by
  induction calls generalizing r p with
  | nil => exact ⟨rfl, h⟩
  | cons call calls ih =>
      obtain ⟨hanswer, hnext⟩ := h.serve call
      obtain ⟨hanswers, hfinal⟩ := ih hnext
      refine ⟨?_, hfinal⟩
      simp only [Repo.run, PlainRepo.run]
      rw [hanswer, hanswers]

theorem groupCount_serve (r : Repo κ υ) (call : RepoCall κ υ) :
    (r.serve call).2.groupCount = r.groupCount := by
  have hmodify (key : κ) (f : Group κ υ → Group κ υ) :
      (r.modifyGroup key f).groupCount = r.groupCount := List.length_modify ..
  cases call with
  | get | contains | getAll | getMulti | size => rfl
  | expire key => exact hmodify key _
  | setOnFetch key fetched =>
      simp only [Repo.serve, Repo.setOnFetch]
      repeat' split
      all_goals first | rfl | exact hmodify key _
  | setOnStore key v =>
      simp only [Repo.serve, Repo.setOnStore]
      split
      · rfl
      · exact hmodify key _
  | setOnDelete key v =>
      simp only [Repo.serve, Repo.setOnDelete]
      split
      · exact hmodify key _
      · rfl

theorem groupCount_run (r : Repo κ υ) (calls : List (RepoCall κ υ)) :
    (r.run calls).2.groupCount = r.groupCount := by
  induction calls generalizing r with
  | nil => rfl
  | cons call calls ih => exact (ih (r.serve call).2).trans (r.groupCount_serve call)

/-- **A sharded repository is a plain map.**  Whatever number of groups is asked for and
whatever is called, all answers are those of a cache over one map, and so are the slots in the
end.  A key stands in the one group that its hash leads to, and a scan of that group alone
finds every live instance whose key the scanned one stands for. -/
theorem sharding_unseen [LawfulCacheKey κ] {groups : Nat} (hgroups : 0 < groups)
    (volatile : Bool) (calls : List (RepoCall κ υ)) :
    ∃ r final : Repo κ υ, ∃ plain : PlainRepo κ υ, ∃ answers : List (RepoAnswer κ υ),
      create groups volatile = .ok r ∧ r.groupCount = groups.nextPowerOfTwo ∧
      r.run calls = (answers, final) ∧
      ({ volatile } : PlainRepo κ υ).run calls = (answers, plain) ∧
      plain.slots.entries = final.entries ∧
      (∀ key : κ, ∃ i < r.groupCount, groupOf (CacheKey.hash key) r.groupCount = .ok i ∧
        i = (CacheKey.hash key).toNat % r.groupCount) ∧
      (∀ (i : Nat) (g : Group κ υ) (key : κ) (slot : Slot υ), final.groups[i]? = some g →
        ((key, slot) ∈ g ↔ plain.slots.lookup key = some slot ∧
          groupOf (CacheKey.hash key) r.groupCount = .ok i)) ∧
      ∀ (stem key : κ) (v : υ), CacheKey.startsKey stem key = true →
        plain.slots.lookup key = some (.live v) → v ∈ final.getAll stem := by
  obtain ⟨r, hcreate, hcount, hholds⟩ :
      ∃ r : Repo κ υ, create groups volatile = .ok r ∧ r.groupCount = groups.nextPowerOfTwo ∧
        r.Holds { volatile } := exists_create hgroups volatile
  obtain ⟨hanswers, hfinal⟩ := hholds.run calls
  refine ⟨r, (r.run calls).2, _, _, hcreate, hcount, rfl, Prod.ext hanswers.symm rfl,
    hfinal.entries_eq, ?_, ?_, ?_⟩
  · intro key
    exact ⟨_, r.groupIndex_lt key, r.groupOf_eq key, r.groupIndex_eq_mod key⟩
  · intro i g key slot hg
    rw [hfinal.lookup, ← r.groupCount_run calls]
    exact hfinal.placed.mem_group_iff hg
  · intro stem key v hstem hlive
    exact hfinal.placed.mem_getAll hstem ((hfinal.lookup key).symm.trans hlive)

end Plain

end Repo

namespace Sample

/-- Calls for the seats of a table: one is fetched, one is found missing and stored then, the
table is scanned, one is removed. -/
def seatCalls : List (RepoCall Key Nat) :=
  [.setOnFetch ⟨.int 5, [some (.int 1)]⟩ (some 10), .setOnFetch ⟨.int 5, [some (.int 2)]⟩ none,
    .setOnStore ⟨.int 5, [some (.int 2)]⟩ 20, .getAll ⟨.int 5, [none]⟩,
    .setOnDelete ⟨.int 5, [some (.int 1)]⟩ 10, .get ⟨.int 5, [some (.int 1)]⟩, .size]

/-- Three groups are rounded up to four, and the scan finds both seats. -/
theorem sharding_unseen_seatCalls :
    ∃ r final : Repo Key Nat, Repo.create 3 false = .ok r ∧ r.groupCount = 4 ∧
      r.run seatCalls =
        ([.fetched (some 10) true, .fetched none false, .flag true, .scanned {20, 10},
          .flag true, .slot (some .missing), .count 1], final) := by
  obtain ⟨r, final, plain, answers, hcreate, hcount, hrun, hplain, -⟩ :=
    Repo.sharding_unseen (by decide : 0 < 3) false seatCalls
  have hanswers : answers = [.fetched (some 10) true, .fetched none false, .flag true,
      .scanned {20, 10}, .flag true, .slot (some .missing), .count 1] :=
    (congrArg Prod.fst hplain).symm
  exact ⟨r, final, hcreate, hcount.trans (by decide +kernel), hrun.trans (by rw [hanswers])⟩

end Sample

end WriteBehind
