import WriteBehind.Key

/-!
# Repositories

A repository caches the instances of one record type: under each key at most one
live instance, or the knowledge that storage has no row for the key.  It is
split into groups by the hash of the keys, whose number is a power of two.  A
volatile repository never remembers that a row is missing.
-/

namespace WriteBehind

/-- Keys that a repository can be split by. -/
class CacheKey (κ : Type) where
  hash : κ → UInt64
  /-- Whether the first key stands for the second one, too. -/
  startsKey : κ → κ → Bool

instance : CacheKey Key := ⟨Key.hash, Key.startsKey⟩

/-- What is cached for a key. -/
inductive Slot (υ : Type) where
  | live (v : υ)
  /-- Storage has no row for the key. -/
  | missing
deriving DecidableEq, Repr

/-- The instance of a slot. -/
def Slot.live? {υ : Type} : Slot υ → Option υ
  | .live v => some v
  | .missing => none

/-- A part of a repository: slots by key. -/
abbrev Group (κ υ : Type) := List (κ × Slot υ)

variable {κ υ : Type} [DecidableEq κ]

namespace Group

/-- The slot of a key. -/
def find? (key : κ) : Group κ υ → Option (Slot υ)
  | [] => none
  | (k, slot) :: rest => if k = key then some slot else find? key rest

/-- A group with the slot of a key set. -/
def set (key : κ) (slot : Slot υ) : Group κ υ → Group κ υ
  | [] => [(key, slot)]
  | (k, s) :: rest => if k = key then (key, slot) :: rest else (k, s) :: set key slot rest

/-- A group without a key. -/
def erase (key : κ) (g : Group κ υ) : Group κ υ := g.filter fun e => e.1 ≠ key

/-- The live instances of a group. -/
def instances (g : Group κ υ) : List υ := g.filterMap (·.2.live?)

theorem find?_set (key k : κ) (slot : Slot υ) (g : Group κ υ) :
    find? k (g.set key slot) = if key = k then some slot else find? k g := by
  induction g with
  | nil => simp [set, find?]
  | cons e rest ih =>
    obtain ⟨k', s⟩ := e
    by_cases h : k' = key
    · subst h
      by_cases hk : k' = k <;> simp [set, find?, hk]
    · by_cases hk : k' = k
      · subst hk
        simp [set, find?, h, Ne.symm h]
      · simp [set, find?, h, hk, ih]

theorem find?_erase (key k : κ) (g : Group κ υ) :
    find? k (g.erase key) = if key = k then none else find? k g := by
  induction g with
  | nil => simp [erase, find?]
  | cons e rest ih =>
    obtain ⟨k', s⟩ := e
    simp only [erase] at ih ⊢
    by_cases h : k' = key
    · subst h
      by_cases hk : k' = k <;> simp_all [find?]
    · by_cases hk : k' = k
      · subst hk
        simp [find?, h, Ne.symm h]
      · simp_all [find?]

end Group

/-- A cache of instances by key. -/
structure Repo (κ υ : Type) where
  groups : List (Group κ υ)
  volatile : Bool
  sized : groups.length.isPowerOfTwo

namespace Repo

/-- An empty repository.  The number of groups is rounded up to a power of two. -/
def create (groups : Nat) (volatile : Bool) : Except Breach (Repo κ υ) :=
  if groups = 0 then .error .noGroups
  else
    .ok {
      groups := List.replicate groups.nextPowerOfTwo []
      volatile
      sized := by
        rw [List.length_replicate]
        exact Nat.isPowerOfTwo_nextPowerOfTwo groups }

/-- The number of groups. -/
def groupCount (r : Repo κ υ) : Nat := r.groups.length

variable [CacheKey κ]

/-- The group of a key: the low bits of its hash. -/
def groupIndex (r : Repo κ υ) (key : κ) : Nat :=
  (CacheKey.hash key).toNat &&& (r.groups.length - 1)

/-- The slots in the group of a key. -/
def group (r : Repo κ υ) (key : κ) : Group κ υ :=
  (r.groups[r.groupIndex key]?).getD []

/-- A repository with the group of a key changed. -/
def modifyGroup (r : Repo κ υ) (key : κ) (f : Group κ υ → Group κ υ) : Repo κ υ :=
  { r with
    groups := r.groups.modify (r.groupIndex key) f
    sized := by rw [List.length_modify]; exact r.sized }

/-- What is cached for a key. -/
def get (r : Repo κ υ) (key : κ) : Option (Slot υ) := (r.group key).find? key

/-- Whether a live instance is cached for a key. -/
def contains (r : Repo κ υ) (key : κ) : Bool := ((r.get key).bind (·.live?)).isSome

/-- Caches what a fetch gave, an instance or nothing.  What is cached already
wins.  Gives the cached instance and whether it is the fetched one. -/
def setOnFetch (r : Repo κ υ) (key : κ) (fetched : Option υ) :
    (Option υ × Bool) × Repo κ υ :=
  match r.get key with
  | some slot => ((slot.live?, false), r)
  | none =>
    match fetched with
    | some v => ((some v, true), r.modifyGroup key (·.set key (.live v)))
    | none =>
      ((none, false), if r.volatile then r else r.modifyGroup key (·.set key .missing))

variable [DecidableEq υ]

/-- Caches an instance, unless another live one is cached for the key. -/
def setOnStore (r : Repo κ υ) (key : κ) (v : υ) : Bool × Repo κ υ :=
  match r.get key with
  | some (.live cached) => (cached = v, r)
  | _ => (true, r.modifyGroup key (·.set key (.live v)))

/-- Forgets an instance after its removal, if it is the one cached for the key. -/
def setOnDelete (r : Repo κ υ) (key : κ) (v : υ) : Bool × Repo κ υ :=
  if r.get key = some (.live v) then
    (true, r.modifyGroup key fun g => if r.volatile then g.erase key else g.set key .missing)
  else (false, r)

omit [DecidableEq υ] in
/-- Forgets what is cached for a key and gives the instance, if there was one. -/
def expire (r : Repo κ υ) (key : κ) : Option υ × Repo κ υ :=
  ((r.get key).bind (·.live?), r.modifyGroup key (·.erase key))

/-- The live instances of the keys that a key stands for. -/
def getAll (r : Repo κ υ) (key : κ) : List υ :=
  Group.instances ((r.group key).filter fun e => CacheKey.startsKey key e.1)

/-- The live instances cached for some keys, and the keys to fetch: those of which
nothing is known. -/
def getMulti (r : Repo κ υ) (keys : List κ) : List υ × List κ :=
  (keys.filterMap fun key => (r.get key).bind (·.live?),
    keys.filter fun key => (r.get key).isNone)

/-- The live instances. -/
def instances (r : Repo κ υ) : List υ := r.groups.flatMap Group.instances

/-- The number of live instances. -/
def size (r : Repo κ υ) : Nat := r.instances.length

/-- Whether no live instance is cached. -/
def isEmpty (r : Repo κ υ) : Bool := r.size = 0

/-! ## Look-ups -/

section Lookups

omit [DecidableEq κ] [DecidableEq υ] in
theorem groupIndex_lt (r : Repo κ υ) (key : κ) : r.groupIndex key < r.groups.length := by
  have hpos : 0 < r.groups.length := Nat.pos_of_isPowerOfTwo r.sized
  have hle : r.groupIndex key ≤ r.groups.length - 1 := Nat.and_le_right
  omega

omit [DecidableEq υ] in
/-- Nothing is cached in a new repository. -/
theorem get_of_create {groups : Nat} {volatile : Bool} {r : Repo κ υ}
    (h : create groups volatile = .ok r) (key : κ) :
    r.volatile = volatile ∧ r.get key = none := by
  rw [create] at h
  split at h
  · cases h
  · rw [← Except.ok.inj h]
    refine ⟨rfl, ?_⟩
    rw [get, group]
    cases hg : (List.replicate groups.nextPowerOfTwo ([] : Group κ υ))[
        groupIndex (⟨List.replicate groups.nextPowerOfTwo [], volatile, _⟩ : Repo κ υ) key]? with
    | none => rfl
    | some g =>
        have hmem := List.mem_of_getElem? hg
        rw [List.eq_of_mem_replicate hmem]
        rfl

omit [DecidableEq υ] in
theorem get_modifyGroup (r : Repo κ υ) (key k : κ) {f : Group κ υ → Group κ υ} :
    (r.modifyGroup key f).get k =
      if r.groupIndex key = r.groupIndex k then (f (r.group k)).find? k else r.get k := by
  have hlt := r.groupIndex_lt k
  have hindex : (r.modifyGroup key f).groupIndex k = r.groupIndex k := by
    rw [groupIndex, groupIndex, modifyGroup, List.length_modify]
  rw [get, group, hindex, modifyGroup, List.getElem?_modify]
  by_cases h : r.groupIndex key = r.groupIndex k
  · simp [h, group, hlt]
  · simp [h, get, group]

omit [DecidableEq κ] [DecidableEq υ] in
theorem volatile_modifyGroup (r : Repo κ υ) (key : κ) (f : Group κ υ → Group κ υ) :
    (r.modifyGroup key f).volatile = r.volatile := rfl

omit [DecidableEq υ] in
theorem get_set (r : Repo κ υ) (key k : κ) (slot : Slot υ) :
    (r.modifyGroup key (·.set key slot)).get k = if key = k then some slot else r.get k := by
  rw [get_modifyGroup, Group.find?_set]
  by_cases h : key = k
  · subst h
    simp
  · rw [if_neg h, if_neg h]
    exact ite_self _

omit [DecidableEq υ] in
/-- What a fetch gave is cached if nothing was. -/
theorem get_setOnFetch {r : Repo κ υ} {key : κ} (hnone : r.get key = none)
    (hkeeps : r.volatile = false) (fetched : Option υ) (k : κ) :
    (r.setOnFetch key fetched).1 = (fetched, fetched.isSome) ∧
      (r.setOnFetch key fetched).2.volatile = false ∧
      (r.setOnFetch key fetched).2.get k =
        if key = k then some ((fetched.map .live).getD .missing) else r.get k := by
  cases fetched with
  | none => simp [setOnFetch, hnone, hkeeps, get_set, volatile_modifyGroup]
  | some v => simp [setOnFetch, hnone, hkeeps, get_set, volatile_modifyGroup]

theorem get_setOnStore {r : Repo κ υ} {key : κ} (hmissing : r.get key = some .missing) (v : υ)
    (k : κ) :
    (r.setOnStore key v).1 = true ∧
      (r.setOnStore key v).2.volatile = r.volatile ∧
      (r.setOnStore key v).2.get k = if key = k then some (.live v) else r.get k := by
  simp [setOnStore, hmissing, get_set, volatile_modifyGroup]

/-- The instance that is cached may be stored again. -/
theorem setOnStore_of_live {r : Repo κ υ} {key : κ} {v : υ}
    (hlive : r.get key = some (.live v)) : r.setOnStore key v = (true, r) := by
  simp [setOnStore, hlive]

/-- A removal is remembered if the instance was the cached one. -/
theorem get_setOnDelete {r : Repo κ υ} (hkeeps : r.volatile = false) (key : κ) (v : υ) (k : κ) :
    (r.setOnDelete key v).2.volatile = false ∧
      (r.setOnDelete key v).2.get k =
        if r.get key = some (.live v) ∧ key = k then some .missing else r.get k := by
  rw [setOnDelete]
  by_cases hlive : r.get key = some (.live v)
  · simp [hlive, hkeeps, get_set, volatile_modifyGroup]
  · simp [hlive, hkeeps]

omit [DecidableEq υ] in
/-- What is cached already wins over what was fetched. -/
theorem setOnFetch_of_cached {r : Repo κ υ} {key : κ} {slot : Slot υ}
    (hget : r.get key = some slot) (fetched : Option υ) :
    r.setOnFetch key fetched = ((slot.live?, false), r) := by
  simp [setOnFetch, hget]

omit [DecidableEq υ] in
theorem get_setOnFetch_some {r : Repo κ υ} {key : κ} (hnone : r.get key = none) (v : υ) (k : κ) :
    (r.setOnFetch key (some v)).1 = (some v, true) ∧
      (r.setOnFetch key (some v)).2.volatile = r.volatile ∧
      (r.setOnFetch key (some v)).2.get k = if key = k then some (.live v) else r.get k := by
  simp [setOnFetch, hnone, get_set, volatile_modifyGroup]

omit [DecidableEq υ] in
/-- That a row is missing is cached unless the repository is volatile. -/
theorem get_setOnFetch_none {r : Repo κ υ} {key : κ} (hnone : r.get key = none) (k : κ) :
    (r.setOnFetch key none).1 = (none, false) ∧
      (r.setOnFetch key none).2.volatile = r.volatile ∧
      (r.setOnFetch key none).2.get k =
        if r.volatile = false ∧ key = k then some .missing else r.get k := by
  cases hv : r.volatile <;> simp [setOnFetch, hnone, hv, get_set, volatile_modifyGroup]

/-- An instance takes the place of a key that is free. -/
theorem get_setOnStore_of_free {r : Repo κ υ} {key : κ}
    (hfree : ∀ v, r.get key ≠ some (.live v)) (v : υ) (k : κ) :
    (r.setOnStore key v).1 = true ∧
      (r.setOnStore key v).2.volatile = r.volatile ∧
      (r.setOnStore key v).2.get k = if key = k then some (.live v) else r.get k := by
  cases hget : r.get key with
  | none => simp [setOnStore, hget, get_set, volatile_modifyGroup]
  | some slot =>
      cases slot with
      | live v' => exact absurd hget (hfree v')
      | missing => simp [setOnStore, hget, get_set, volatile_modifyGroup]

omit [DecidableEq υ] in
theorem get_erase (r : Repo κ υ) (key k : κ) :
    (r.modifyGroup key (·.erase key)).get k = if key = k then none else r.get k := by
  rw [get_modifyGroup, Group.find?_erase]
  by_cases h : key = k
  · subst h
    simp
  · rw [if_neg h, if_neg h]
    exact ite_self _

/-- A removal leaves nothing live, in a volatile repository nothing at all. -/
theorem get_setOnDelete_any (r : Repo κ υ) (key : κ) (v : υ) (k : κ) :
    (r.setOnDelete key v).2.volatile = r.volatile ∧
      (r.setOnDelete key v).2.get k =
        if r.get key = some (.live v) ∧ key = k then
          if r.volatile then none else some .missing
        else r.get k := by
  rw [setOnDelete]
  by_cases hlive : r.get key = some (.live v)
  · cases hv : r.volatile
    · simp [hlive, hv, get_set, volatile_modifyGroup]
    · have herase := r.get_erase key k
      simp only [hlive, if_true, true_and]
      exact ⟨hv, herase⟩
  · simp [hlive]

omit [DecidableEq υ] in
/-- Nothing is cached of a key that has expired. -/
theorem get_expire (r : Repo κ υ) (key k : κ) :
    (r.expire key).1 = (r.get key).bind (·.live?) ∧
      (r.expire key).2.volatile = r.volatile ∧
      (r.expire key).2.get k = if key = k then none else r.get k :=
  ⟨rfl, rfl, r.get_erase key k⟩

end Lookups

end Repo

end WriteBehind
